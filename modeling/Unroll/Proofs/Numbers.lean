import Mathlib.Algebra.Group.Nat.Defs
import Unroll.Lexer.Number

/-!
# Runs of digits

The value of a run of digits, without the shortcuts that reading takes.

* `Lexer.boundedValue?_eq` — a run that is not evaluated because of its length exceeds `maxNumber`,
  and leading zeros do not count;
* `Lexer.digitsValue_toDigits` — the decimal digits of a number have it as their value;
* `Lexer.takeWhile_digits`, `Lexer.dropWhile_digits` — where the longest run of digits ends.
-/

namespace Unroll

namespace Lexer

theorem isDigit_iff {c : Char} : isDigit c = true ↔ 48 ≤ c.toNat ∧ c.toNat ≤ 57 := by
  simp only [isDigit, Bool.and_eq_true, decide_eq_true_eq, Char.le_def, UInt32.le_iff_toNat_le]
  rfl

/-! ### Values -/

theorem digitsValue_eq (digits : List Char) :
    digitsValue digits = Nat.ofDigitChars 10 digits 0 := by
  rw [Nat.ofDigitChars_eq_foldl]
  rfl

theorem digitsValue_cons (c : Char) (cs : List Char) :
    digitsValue (c :: cs) = 10 ^ cs.length * (c.toNat - 48) + digitsValue cs := by
  rw [digitsValue_eq, digitsValue_eq, Nat.ofDigitChars_cons, Nat.ofDigitChars_eq_ofDigitChars_zero]
  simp

/-- The decimal digits of a number have it as their value. -/
theorem digitsValue_toDigits (n : Nat) : digitsValue (Nat.toDigits 10 n) = n := by
  rw [digitsValue_eq, Nat.ofDigitChars_ten_toDigits]

theorem isDigit_of_mem_toDigits {n : Nat} {c : Char} (h : c ∈ Nat.toDigits 10 n) :
    isDigit c = true :=
  isDigit_iff.2 (Char.isDigit_iff_toNat.1 (Nat.isDigit_of_mem_toDigits (by decide) (by decide) h))

/-- Leading zeros do not change the value. -/
theorem digitsValue_dropWhile (digits : List Char) :
    digitsValue (digits.dropWhile (· = '0')) = digitsValue digits := by
  induction digits with
  | nil => rfl
  | cons c cs ih =>
    by_cases hc : c = '0'
    · subst hc
      rw [List.dropWhile_cons_of_pos (by simp), ih, digitsValue_cons]
      simp
    · rw [List.dropWhile_cons_of_neg (by simpa using hc)]

/-- A run of digits that begins with none of the zeros is at least as large as its length says. -/
theorem pow_le_digitsValue {c : Char} {cs : List Char} (hc : isDigit c = true) (hz : c ≠ '0') :
    10 ^ cs.length ≤ digitsValue (c :: cs) := by
  have hne : c.toNat ≠ 48 := fun h => hz (Char.toNat_inj.1 h)
  have hpos : 1 ≤ c.toNat - 48 := by
    have := (isDigit_iff.1 hc).1
    omega
  calc
    10 ^ cs.length = 10 ^ cs.length * 1 := (Nat.mul_one _).symm
    _ ≤ 10 ^ cs.length * (c.toNat - 48) := Nat.mul_le_mul_left _ hpos
    _ ≤ 10 ^ cs.length * (c.toNat - 48) + digitsValue cs := Nat.le_add_right ..
    _ = digitsValue (c :: cs) := (digitsValue_cons c cs).symm

/-- A run with more significant digits than `maxNumber` has exceeds it. -/
theorem maxNumber_lt_of_long {digits : List Char} (hd : ∀ c ∈ digits, isDigit c = true)
    (hlong : maxDigits < (digits.dropWhile (· = '0')).length) :
    maxNumber < digitsValue (digits.dropWhile (· = '0')) := by
  have hsuffix := List.dropWhile_suffix (l := digits) fun c => decide (c = '0')
  have hhead := List.head?_dropWhile_not (fun c => decide (c = '0')) digits
  generalize digits.dropWhile (· = '0') = significant at hlong hsuffix hhead ⊢
  cases significant with
  | nil => simp at hlong
  | cons c cs =>
    have hz : c ≠ '0' := by simpa using hhead
    have hc : isDigit c = true := hd c (hsuffix.subset (List.mem_cons_self ..))
    have hlen : 19 ≤ cs.length := by
      simp only [maxDigits, List.length_cons] at hlong
      omega
    calc
      maxNumber < 10 ^ 19 := by decide
      _ ≤ 10 ^ cs.length := Nat.pow_le_pow_right (by decide) hlen
      _ ≤ digitsValue (c :: cs) := pow_le_digitsValue hc hz

/-- The bounded value of a run of digits is its value, whenever that is not too large. -/
theorem boundedValue?_eq {digits : List Char} (hd : ∀ c ∈ digits, isDigit c = true) :
    boundedValue? digits =
      if digitsValue digits ≤ maxNumber then some (digitsValue digits) else none := by
  by_cases hlong : maxDigits < (digits.dropWhile (· = '0')).length
  · have hlarge := maxNumber_lt_of_long hd hlong
    rw [digitsValue_dropWhile] at hlarge
    rw [boundedValue?, if_pos hlong, if_neg (by omega)]
  · simp only [boundedValue?, if_neg hlong, digitsValue_dropWhile]
    by_cases hle : digitsValue digits ≤ maxNumber
    · rw [if_pos hle, if_neg (by omega)]
    · rw [if_neg hle, if_pos (by omega)]

/-! ### Where a run ends -/

/-- The longest run of digits is made of digits. -/
theorem isDigit_of_mem_takeWhile {s : List Char} : ∀ c ∈ s.takeWhile isDigit, isDigit c = true :=
  List.all_eq_true.1 List.all_takeWhile

/-- The longest run of digits is a given one if no digit follows that. -/
theorem takeWhile_digits {digits rest : List Char} (hd : ∀ c ∈ digits, isDigit c = true)
    (hr : ∀ c ∈ rest.head?, isDigit c = false) : (digits ++ rest).takeWhile isDigit = digits := by
  rw [List.takeWhile_append_of_pos hd]
  cases rest with
  | nil => simp
  | cons c cs => simp [hr c rfl]

theorem dropWhile_digits {digits rest : List Char} (hd : ∀ c ∈ digits, isDigit c = true)
    (hr : ∀ c ∈ rest.head?, isDigit c = false) : (digits ++ rest).dropWhile isDigit = rest := by
  rw [List.dropWhile_append_of_pos hd]
  cases rest with
  | nil => rfl
  | cons c cs => simp [hr c rfl]

/-- No digit follows the longest run of digits. -/
theorem isDigit_head?_dropWhile {s : List Char} :
    ∀ c ∈ (s.dropWhile isDigit).head?, isDigit c = false := by
  intro c hc
  have h := List.head?_dropWhile_not isDigit s
  rw [hc] at h
  simpa using h

end Lexer

end Unroll
