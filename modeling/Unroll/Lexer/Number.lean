import Unroll.Lexer.Basic

/-!
# Numbers

A number prefix is followed by the decimal digits of a number. The longest run of digits is taken,
whatever roles the digits have.

* `Lexer.boundedValue?` — the value of a run of digits, if it is not too large;
* `Lexer.takeDigits` — consumes a run of digits;
* `Lexer.numberIn` — reads the number after a number prefix.
-/

namespace Unroll

namespace Lexer

/-- The ten digits that numbers are written with, whatever roles they have. -/
def isDigit (c : Char) : Bool := '0' ≤ c && c ≤ '9'

/-- The value of a run of digits, the most significant first. -/
def digitsValue (digits : List Char) : Nat :=
  digits.foldl (fun n c => 10 * n + (c.toNat - '0'.toNat)) 0

/-- The number of digits of `maxNumber`. -/
def maxDigits : Nat := 19

/-- The value of a run of digits, unless it exceeds `maxNumber`. A run that is too long, leading
zeros aside, is not evaluated. -/
def boundedValue? (digits : List Char) : Option Nat :=
  let significant := digits.dropWhile (· = '0')
  if maxDigits < significant.length then none
  else
    let n := digitsValue significant
    if maxNumber < n then none else some n

/-- Consumes digits as long as there are any, behind those of `done`, which stand in reverse. -/
def takeDigits : (steps : Nat) → (done : List Char) → Lexer → Except Fault (List Char) × Lexer
  | 0, done, l => (.ok done.reverse, l)
  | steps + 1, done, l =>
    match l.peek with
    | (.ok (some c), l) =>
      if isDigit c then takeDigits steps (c :: done) (l.consume c) else (.ok done.reverse, l)
    | (.ok none, l) => (.ok done.reverse, l)
    | (.error f, l) => (.error f, l)

/-- Reads the number after a number prefix. What is wrong with it is reported at the position of
the prefix. -/
def numberIn (config : Config) (steps : Nat) (l : Lexer) : Except Failure Token × Lexer :=
  match takeDigits steps [] l with
  | (.error f, after) => (.error (.input f), after)
  | (.ok [], after) => (l.reject (numberMissing config), after)
  | (.ok digits, after) =>
    match boundedValue? digits with
    | some n => (.ok (.number n), after)
    | none => (l.reject (numberOverflow config digits), after)

end Lexer

end Unroll
