import Unroll.Text.Quoted

/-!
# Character sets

A text sink may be able to hold only the characters of a small set. `Charset.refusal?` finds the
first run of characters that do not fit, and `Unencodable.message` describes it.
-/

namespace Unroll.Text

/-- The character sets of text sinks. -/
inductive Charset where
  | ascii
  | latin1
  | utf8
deriving DecidableEq, Repr

namespace Charset

/-- The name of a character set inside messages. -/
def name : Charset → String
  | ascii => "ascii"
  | latin1 => "latin-1"
  | utf8 => "utf-8"

/-- How many characters a set holds: those with the smallest numbers. -/
def size : Charset → Nat
  | ascii => 0x80
  | latin1 => 0x100
  | utf8 => 0x110000

/-- Whether a character belongs to the set. -/
def holds (charset : Charset) (c : Char) : Bool := c.toNat < charset.size

end Charset

/-- A run of `length` characters outside of a set, beginning with `first` at `position`. -/
structure Unencodable where
  charset : Charset
  position : Nat
  length : Nat
  first : Char
deriving DecidableEq, Repr

/-- The first run of characters that do not belong to the set. -/
def Charset.refusal? (charset : Charset) (text : List Char) : Option Unencodable :=
  match text.dropWhile charset.holds with
  | [] => none
  | c :: rest =>
    some { charset, position := (text.takeWhile charset.holds).length, first := c,
           length := (rest.takeWhile (!charset.holds ·)).length + 1 }

/-- The description of characters that do not fit. -/
def Unencodable.message (u : Unencodable) : String :=
  let what :=
    if u.length = 1 then
      s!"character '" ++ String.ofList (numericEscape u.first) ++ s!"' in position {u.position}"
    else s!"characters in position {u.position}-{u.position + u.length - 1}"
  s!"'{u.charset.name}' codec can't encode {what}: ordinal not in range({u.charset.size})"

end Unroll.Text
