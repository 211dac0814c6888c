/-!
# Binary floating point numbers

The numbers of 53 significant bits, as exact data: a sign, a natural number and a power of two.
`ofDecimal` rounds a decimal number to the nearest of them, a tie to the one with even mantissa,
in exact arithmetic on natural numbers.
-/

namespace Unroll.Number

/-- A floating point number. A finite one is `mantissa * 2 ^ exponent`, with a sign of its own so
that there are two zeros. -/
inductive Binary64 where
  | finite (negative : Bool) (mantissa : Nat) (exponent : Int)
  | infinite (negative : Bool)
  | nan
deriving DecidableEq, Repr

namespace Binary64

/-- The number of significant bits. -/
def precision : Nat := 53

/-- The exponent of the smallest numbers. -/
def minExponent : Int := -1074

/-- The exponent of the largest numbers. -/
def maxExponent : Int := 971

/-- The natural number nearest to `n / d`, of two equally near ones the even one. -/
def roundDiv (n d : Nat) : Nat :=
  let q := n / d
  let twice := 2 * (n % d)
  if twice < d then q else if d < twice then q + 1 else q + q % 2

/-- `n * 2 ^ e` as a fraction of natural numbers. -/
def scaled (n d : Nat) (e : Int) : Nat × Nat :=
  if 0 ≤ e then (n * Nat.pow 2 e.toNat, d) else (n, d * Nat.pow 2 (-e).toNat)

/-- The floating point number nearest to `n / d`, for positive `n` and `d`. -/
def ofRatio (negative : Bool) (n d : Nat) : Binary64 :=
  -- one of these two exponents leaves a mantissa of exactly `precision` bits
  let guess : Int := (n.log2 : Int) - d.log2 - precision
  let fits (e : Int) : Bool :=
    let (a, b) := scaled n d (-e)
    a < Nat.pow 2 precision * b
  let exponent := max minExponent (if fits guess then guess else guess + 1)
  let (a, b) := scaled n d (-exponent)
  let mantissa := roundDiv a b
  let (mantissa, exponent) :=
    if mantissa = Nat.pow 2 precision then (mantissa / 2, exponent + 1) else (mantissa, exponent)
  if maxExponent < exponent then .infinite negative else .finite negative mantissa exponent

/-- The floating point number nearest to `digits * 10 ^ exponent`. Exponents outside of the range
are settled before any power is computed. -/
def ofDecimal (negative : Bool) (digits : Nat) (exponent : Int) : Binary64 :=
  let magnitude : Int := (digits.log2 : Int) * 30103 / 100000 + exponent
  if digits = 0 || magnitude < -330 then .finite negative 0 minExponent
  else if 310 < magnitude then .infinite negative
  else if 0 ≤ exponent then ofRatio negative (digits * Nat.pow 10 exponent.toNat) 1
  else ofRatio negative digits (Nat.pow 10 (-exponent).toNat)

end Binary64

end Unroll.Number
