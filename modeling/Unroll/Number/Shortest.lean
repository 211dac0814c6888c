import Unroll.Number.Binary64

/-!
# Shortest decimals

A floating point number is shown by the fewest decimal digits that read back as the same number,
and among those by the nearest.

* `Rounding` — the interval of reals that round to a number;
* `shortest` — the digits and the power of ten;
* `Binary64.text` — the written form.
-/

namespace Unroll.Number

/-- The reals that round to one positive floating point number, in units of `2 ^ unit`: those
from `low` to `high`, with the number itself at `value`. The ends belong to the interval when
`closed`. -/
structure Rounding where
  low : Nat
  value : Nat
  high : Nat
  unit : Int
  closed : Bool

/-- The reals that round to `mantissa * 2 ^ exponent`. Below a power of two the numbers lie twice
as close. -/
def Rounding.of (mantissa : Nat) (exponent : Int) : Rounding where
  low := if mantissa = Nat.pow 2 (Binary64.precision - 1) ∧ Binary64.minExponent < exponent
    then 4 * mantissa - 1 else 4 * mantissa - 2
  value := 4 * mantissa
  high := 4 * mantissa + 2
  unit := exponent - 2
  closed := mantissa % 2 = 0

/-- The fraction `n * 2 ^ binary / 10 ^ decimal`. -/
def ratio (n : Nat) (binary decimal : Int) : Nat × Nat :=
  (n * Nat.pow 2 binary.toNat * Nat.pow 10 (-decimal).toNat,
    Nat.pow 2 (-binary).toNat * Nat.pow 10 decimal.toNat)

/-- Whether `digits * 10 ^ place` lies in the interval. -/
def Rounding.contains (r : Rounding) (digits : Nat) (place : Int) : Bool :=
  let (low, den) := ratio r.low r.unit place
  let (high, _) := ratio r.high r.unit place
  if r.closed then low ≤ digits * den && digits * den ≤ high
  else low < digits * den && digits * den < high

/-- The number of digits before the decimal point of `n * 2 ^ e`, for positive `n`: the least `p`
with `n * 2 ^ e < 10 ^ p`, which may be negative. The search starts just below. -/
def integerDigits (n : Nat) (e : Int) : Int :=
  let start : Int := ((n.log2 : Int) + e) * 30103 / 100000 - 1
  let below (p : Int) : Bool := let (a, b) := ratio n e p; a < b
  if below start then start
  else if below (start + 1) then start + 1
  else if below (start + 2) then start + 2
  else start + 3

/-- The nearer of the two decimals with last place `place` around the number that lie in the
interval, if any does; of two equally near ones the even one. -/
def Rounding.nearest? (r : Rounding) (place : Int) : Option Nat :=
  let (value, den) := ratio r.value r.unit place
  let down := value / den
  let twice := 2 * (value % den)
  match r.contains down place, r.contains (down + 1) place with
  | false, false => none
  | true, false => some down
  | false, true => some (down + 1)
  | true, true =>
    some (if twice < den || (twice == den && down % 2 == 0) then down else down + 1)

/-- The fewest digits: `count` more than so many are tried. -/
def Rounding.search (r : Rounding) (point : Int) : (more count : Nat) → Nat × Int
  | 0, count => (r.value, point - count)
  | more + 1, count =>
    match r.nearest? (point - count) with
    | some digits => (digits, point - count)
    | none => search r point more (count + 1)

/-- The shortest decimal that rounds to the positive number `mantissa * 2 ^ exponent`: its digits
and its last place. Seventeen digits always suffice. -/
def shortest (mantissa : Nat) (exponent : Int) : Nat × Int :=
  let r := Rounding.of mantissa exponent
  r.search (integerDigits r.value r.unit) 17 1

/-- How a decimal is laid out. -/
structure Layout where
  /-- positional notation is used while the leading digit stands at or above this power of ten -/
  least : Int
  /-- and below this one -/
  bound : Int
  /-- the fewest digits of a written exponent -/
  exponentDigits : Nat

/-- Positional from `0.0001` to below `10 ^ 16`; exponents are signed and have two digits. -/
def layout : Layout := ⟨-4, 16, 2⟩

/-- `text` with zeros in front, up to `width` characters. -/
def padZeros (width : Nat) (text : List Char) : List Char :=
  List.replicate (width - text.length) '0' ++ text

/-- The digits `ds`, the first of which stands for `10 ^ lead`, with a decimal point. At least one
digit stands on each side of the point. -/
def positional (ds : List Char) (lead : Int) : List Char :=
  if lead < 0 then '0' :: '.' :: List.replicate (-lead - 1).toNat '0' ++ ds
  else
    let whole := lead.toNat + 1
    if ds.length ≤ whole then ds ++ List.replicate (whole - ds.length) '0' ++ ['.', '0']
    else ds.take whole ++ '.' :: ds.drop whole

/-- The digits `ds`, the first of which stands for `10 ^ lead`, with an exponent. -/
def scientific (l : Layout) (ds : List Char) (lead : Int) : List Char :=
  let digits := match ds with
    | d :: e :: rest => d :: '.' :: e :: rest
    | _ => ds
  digits ++ 'e' :: (if lead < 0 then '-' else '+') ::
    padZeros l.exponentDigits (Nat.toDigits 10 lead.natAbs)

/-- The digits without the zeros at their end. -/
def trimZeros (ds : List Char) : List Char :=
  (ds.reverse.dropWhile (· = '0')).reverse

/-- The written form of a floating point number. -/
def Binary64.text : Binary64 → String
  | .nan => "nan"
  | .infinite negative => if negative then "-inf" else "inf"
  | .finite negative mantissa exponent =>
    let sign := if negative then ['-'] else []
    if mantissa = 0 then String.ofList (sign ++ ['0', '.', '0'])
    else
      let (digits, place) := shortest mantissa exponent
      let all := Nat.toDigits 10 digits
      let lead := place + all.length - 1
      let ds := trimZeros all
      String.ofList <| sign ++
        if layout.least ≤ lead && lead < layout.bound then positional ds lead
        else scientific layout ds lead

end Unroll.Number
