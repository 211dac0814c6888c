/-!
# Numerals

Whole numbers as people write them on a command line: blanks around, a sign, digits of any script,
and single underscores between digits.

* `isBlank`, `decimalDigit?` — the two character classes, over all scripts;
* `Numeral.digits?` — the digits of a numeral, with its underscores removed;
* `readInteger?` — the number a text denotes.
-/

namespace Unroll.Text

/-- The blanks that may stand around a numeral. The four information separators `U+001C` to
`U+001F` are no blanks here. -/
def isBlank (c : Char) : Bool :=
  let n := c.toNat
  (0x09 ≤ n && n ≤ 0x0D) || n == 0x20 || n == 0x85 || n == 0xA0 || n == 0x1680 ||
  (0x2000 ≤ n && n ≤ 0x200A) || n == 0x2028 || n == 0x2029 || n == 0x202F || n == 0x205F ||
  n == 0x3000

/-- The code point of the digit zero of every script that has decimal digits; the digits one to
nine follow it. -/
def decimalZeros : List Nat :=
  [0x30, 0x660, 0x6F0, 0x7C0, 0x966, 0x9E6, 0xA66, 0xAE6, 0xB66, 0xBE6, 0xC66, 0xCE6, 0xD66,
   0xDE6, 0xE50, 0xED0, 0xF20, 0x1040, 0x1090, 0x17E0, 0x1810, 0x1946, 0x19D0, 0x1A80, 0x1A90,
   0x1B50, 0x1BB0, 0x1C40, 0x1C50, 0xA620, 0xA8D0, 0xA900, 0xA9D0, 0xA9F0, 0xAA50, 0xABF0,
   0xFF10, 0x104A0, 0x10D30, 0x11066, 0x110F0, 0x11136, 0x111D0, 0x112F0, 0x11450, 0x114D0,
   0x11650, 0x116C0, 0x11730, 0x118E0, 0x11950, 0x11C50, 0x11D50, 0x11DA0, 0x16A60, 0x16AC0,
   0x16B50, 0x1D7CE, 0x1D7D8, 0x1D7E2, 0x1D7EC, 0x1D7F6, 0x1E140, 0x1E2F0, 0x1E950, 0x1FBF0]

/-- The value of a decimal digit of any script. -/
def decimalDigit? (c : Char) : Option Nat :=
  (decimalZeros.find? fun first => first ≤ c.toNat && c.toNat < first + 10).map (c.toNat - ·)

/-- The number whose decimal digits are `digits`, most significant first. -/
def ofDigits (digits : List Nat) : Nat :=
  digits.foldl (fun n d => 10 * n + d) 0

/-- The most digits a numeral may have, leading zeros included. -/
def maxNumeralDigits : Nat := 4300

/-- The digits of `text`: at least one, with at most one underscore between two of them. -/
def Numeral.digits? : List Char → Option (List Nat)
  | [] => none
  | [c] => (decimalDigit? c).map fun d => [d]
  | c :: '_' :: rest => do
    let d ← decimalDigit? c
    return d :: (← digits? rest)
  | c :: rest => do
    let d ← decimalDigit? c
    return d :: (← digits? rest)

/-- Removes the blanks on both sides. -/
def trimBlanks (text : List Char) : List Char :=
  ((text.dropWhile isBlank).reverse.dropWhile isBlank).reverse

/-- The number that a text denotes: `none` for a text that is no numeral, or one of more than
`maxNumeralDigits` digits. -/
def readInteger? (text : String) : Option Int :=
  let (negative, body) := match trimBlanks text.toList with
    | '-' :: rest => (true, rest)
    | '+' :: rest => (false, rest)
    | rest => (false, rest)
  match Numeral.digits? body with
  | none => none
  | some digits =>
    if maxNumeralDigits < digits.length then none
    else if negative then some (-(ofDigits digits : Int)) else some (ofDigits digits)

end Unroll.Text
