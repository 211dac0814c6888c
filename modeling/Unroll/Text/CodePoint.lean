/-!
# Code points

A text of a document may be anything that its escapes spell, also half of a surrogate pair without
the other half. Such a half is no character, and no two of them are the same, so the texts of
documents are made of code points.

* `CodePoint` — a character, or half of a surrogate pair;
* `CodeText` — a text of code points, and `CodeText.ofString`, a text of characters as one;
* `CodeText.shown` — the form in which a text stands where there are characters only.
-/

namespace Unroll

/-- A character, or half of a surrogate pair. -/
inductive CodePoint where
  | char (c : Char)
  /-- the half with this number among all: those below `0x400` are first halves -/
  | half (index : Fin 0x800)
deriving DecidableEq, Repr

namespace CodePoint

instance : Coe Char CodePoint := ⟨char⟩

/-- The number of a code point. -/
def number : CodePoint → Nat
  | char c => c.toNat
  | half index => 0xD800 + index

/-- The code point with a number, which must be one. -/
def ofNumber (n : Nat) : CodePoint :=
  if h : 0xD800 ≤ n ∧ n < 0xE000 then half ⟨n - 0xD800, by omega⟩ else char (Char.ofNat n)

end CodePoint

/-- The last `width` hexadecimal digits of `n`, in lower case. -/
def Text.hexDigits : (width : Nat) → (n : Nat) → List Char
  | 0, _ => []
  | width + 1, n => hexDigits width (n / 16) ++ [Nat.digitChar (n % 16)]

/-- A text of code points. -/
abbrev CodeText := List CodePoint

namespace CodeText

/-- A text of characters. -/
def ofString (s : String) : CodeText := s.toList.map .char

instance : Coe String CodeText := ⟨ofString⟩

/-- The text as it stands where there are characters only: with the escape that spells it in place of
half a surrogate pair. -/
def shown (text : CodeText) : String :=
  String.ofList (text.flatMap fun c => match c with
    | .char c => [c]
    | .half index => '\\' :: 'u' :: Text.hexDigits 4 (CodePoint.half index).number)

end CodeText

end Unroll
