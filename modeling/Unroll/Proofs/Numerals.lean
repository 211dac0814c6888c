import Unroll.Lexer.Program
import Unroll.Proofs.Characters
import Unroll.Proofs.Roles
import Unroll.Text.Numeral

/-!
# Numbers of any length

The number after a number prefix is that of the longest run of digits, however long that is. Digits
are only converted to a value after the leading zeros are gone and the run has turned out to be
short, so that a conversion that is limited in length is good enough.

* `Text.readInteger?_digits` — how runs of digits are converted where numerals are limited;
* `Lexer.boundedBy`, `Lexer.numberBy` — reading by means of a conversion that may refuse a run;
* `Lexer.numberBy_eq` — a conversion that is right about short runs is as good as any;
* `Lexer.NumberRead` — what is read of a run of digits;
* `Lexer.readNumber_exact` — numbers are read exactly.
-/

namespace Unroll

open Lexer (isDigit isDigit_iff digitsValue)

/-! ### A conversion that is limited -/

namespace Text

theorem decimalDigit?_of_isDigit {c : Char} (h : isDigit c = true) :
    decimalDigit? c = some (c.toNat - 48) := by
  obtain ⟨hlow, hhigh⟩ := isDigit_iff.1 h
  have hzeros : decimalZeros = 48 :: decimalZeros.tail := rfl
  have hfirst : (decide (48 ≤ c.toNat) && decide (c.toNat < 48 + 10)) = true := by
    simp only [Bool.and_eq_true, decide_eq_true_eq]
    omega
  rw [decimalDigit?, hzeros, List.find?_cons]
  simp only [hfirst, Option.map_some]

theorem isBlank_of_isDigit {c : Char} (h : isDigit c = true) : isBlank c = false := by
  obtain ⟨hlow, hhigh⟩ := isDigit_iff.1 h
  simp only [isBlank, Bool.or_eq_false_iff, Bool.and_eq_false_iff, decide_eq_false_iff_not,
    beq_eq_false_iff_ne]
  omega

theorem digits?_of_digits {digits : List Char} (hne : digits ≠ [])
    (hd : ∀ c ∈ digits, isDigit c = true) :
    Numeral.digits? digits = some (digits.map (·.toNat - 48)) := by
  induction digits with
  | nil => exact absurd rfl hne
  | cons c cs ih =>
    obtain ⟨hc, hcs⟩ := List.forall_mem_cons.1 hd
    cases cs with
    | nil => simp [Numeral.digits?, decimalDigit?_of_isDigit hc]
    | cons c' cs =>
      -- an underscore is no digit, so that the next character is one of the numeral
      have hunderscore : c' ≠ '_' := by
        rintro rfl
        exact absurd (hcs _ (List.mem_cons_self ..)) (by decide)
      rw [Numeral.digits?, decimalDigit?_of_isDigit hc, ih (List.cons_ne_nil c' cs) hcs]
      · rfl
      · exact List.cons_ne_nil c' cs
      · exact fun rest heq => hunderscore (List.cons.inj heq).1

/-- A run of digits that is not too long is read as its value. -/
theorem readInteger?_digits {digits : List Char} (hne : digits ≠ [])
    (hd : ∀ c ∈ digits, isDigit c = true) :
    readInteger? (String.ofList digits) =
      if maxNumeralDigits < digits.length then none else some (digitsValue digits : Int) := by
  have hplain : trimBlanks digits = digits := by
    have hkeep : ∀ {ds : List Char}, (∀ c ∈ ds, isDigit c = true) → ds.dropWhile isBlank = ds := by
      intro ds hds
      cases ds with
      | nil => rfl
      | cons c cs =>
        have hc := isBlank_of_isDigit (hds c (List.mem_cons_self ..))
        exact List.dropWhile_cons_of_neg (by simp [hc])
    rw [trimBlanks, hkeep hd, hkeep (fun c hc => hd c (List.mem_reverse.1 hc)),
      List.reverse_reverse]
  have hvalue : ofDigits (digits.map (·.toNat - 48)) = digitsValue digits := by
    rw [ofDigits, digitsValue, List.foldl_map]
    rfl
  cases digits with
  | nil => exact absurd rfl hne
  | cons c cs =>
    have hc := isDigit_iff.1 (hd c (List.mem_cons_self ..))
    have hminus : c ≠ '-' := by
      rintro rfl
      exact absurd hc (by decide)
    have hplus : c ≠ '+' := by
      rintro rfl
      exact absurd hc (by decide)
    rw [readInteger?, String.toList_ofList, hplain]
    split
    rename_i negative body hsign
    -- the sign is read off the first character, which is a digit
    split at hsign
    · rename_i heq
      exact absurd (List.cons.inj heq).1 hminus
    · rename_i heq
      exact absurd (List.cons.inj heq).1 hplus
    · obtain ⟨rfl, rfl⟩ := Prod.mk.inj hsign
      simp only [digits?_of_digits hne hd, List.length_map, hvalue, Bool.false_eq_true, if_false]

end Text

namespace Lexer

/-! ### Reading by means of a conversion -/

/-- What is left of a run of digits without its leading zeros: of nothing but zeros, one. -/
def significant (digits : List Char) : List Char :=
  if digits.dropWhile (· = '0') = [] then ['0'] else digits.dropWhile (· = '0')

/-- The value of a run of digits by means of a conversion, unless it exceeds `maxNumber`. A run that
is too long, leading zeros aside, is not converted. There is no result if the conversion refuses
what it is given. -/
def boundedBy (convert : List Char → Option Int) (digits : List Char) : Option (Option Int) :=
  if maxDigits < (significant digits).length then some none
  else (convert (significant digits)).map fun n => if (maxNumber : Int) < n then none else some n

/-- Reads the number after a number prefix by means of a conversion. There is no result if the
conversion refuses what it is given. -/
def numberBy (convert : List Char → Option Int) (config : Config) (steps : Nat) (l : Lexer) :
    Option (Except Failure Token) × Lexer :=
  match takeDigits steps [] l with
  | (.error f, after) => (some (.error (.input f)), after)
  | (.ok [], after) => (some (l.reject (numberMissing config)), after)
  | (.ok digits, after) =>
    match boundedBy convert digits with
    | none => (none, after)
    | some (some n) => (some (.ok (.number n)), after)
    | some none => (some (l.reject (numberOverflow config digits)), after)

/-- A conversion gives the value of every run of at most `limit` digits. Of longer ones, it may give
anything or nothing. -/
def RightUpTo (limit : Nat) (convert : List Char → Option Int) : Prop :=
  ∀ digits, digits ≠ [] → digits.length ≤ limit → (∀ c ∈ digits, isDigit c = true) →
    convert digits = some (digitsValue digits : Int)

theorem rightUpTo_readInteger? :
    RightUpTo Text.maxNumeralDigits fun digits => Text.readInteger? (String.ofList digits) := by
  intro digits hne hlength hd
  exact (Text.readInteger?_digits hne hd).trans (if_neg (Nat.not_lt.2 hlength))

variable {convert : List Char → Option Int} {digits : List Char}

theorem isDigit_of_mem_significant (hd : ∀ c ∈ digits, isDigit c = true) :
    ∀ c ∈ significant digits, isDigit c = true := by
  intro c hc
  rw [significant] at hc
  split at hc
  · rw [List.mem_singleton.1 hc]
    decide
  · exact hd c ((List.dropWhile_suffix _).subset hc)

theorem significant_ne_nil (digits : List Char) : significant digits ≠ [] := by
  rw [significant]
  split
  · exact List.cons_ne_nil _ _
  · assumption

theorem digitsValue_significant (digits : List Char) :
    digitsValue (significant digits) = digitsValue digits := by
  rw [← digitsValue_dropWhile digits, significant]
  split
  · rename_i hzeros
    rw [hzeros]
    rfl
  · rfl

/-- That one zero is left does not make a run too long. -/
theorem length_significant_iff (digits : List Char) :
    maxDigits < (significant digits).length ↔
      maxDigits < (digits.dropWhile (· = '0')).length := by
  rw [significant]
  split
  · rename_i hzeros
    rw [hzeros]
    decide
  · exact Iff.rfl

/-- A conversion that is right about short runs finds the same as the reader, which has none. -/
theorem boundedBy_eq (h : RightUpTo maxDigits convert) (hd : ∀ c ∈ digits, isDigit c = true) :
    boundedBy convert digits = some ((boundedValue? digits).map Int.ofNat) := by
  rw [boundedBy, boundedValue?]
  by_cases hlong : maxDigits < (significant digits).length
  · rw [if_pos hlong]
    simp only [if_pos ((length_significant_iff digits).1 hlong), Option.map_none]
  · have hvalue : convert (significant digits) = some (digitsValue digits : Int) := by
      rw [h _ (significant_ne_nil digits) (Nat.not_lt.1 hlong) (isDigit_of_mem_significant hd),
        digitsValue_significant]
    rw [if_neg hlong, hvalue]
    simp only [if_neg (mt (length_significant_iff digits).2 hlong), digitsValue_dropWhile,
      Option.map_some, Int.ofNat_lt]
    split
    · rfl
    · rfl

theorem isDigit_of_takeDigits {steps : Nat} {done : List Char} {l l' : Lexer}
    (h : takeDigits steps done l = (.ok digits, l')) (hdone : ∀ c ∈ done, isDigit c = true) :
    ∀ c ∈ digits, isDigit c = true := by
  have hreverse : ∀ c ∈ done.reverse, isDigit c = true :=
    fun c hc => hdone c (List.mem_reverse.1 hc)
  induction steps generalizing done l with
  | zero =>
    obtain ⟨hdigits, -⟩ := Prod.mk.inj h
    exact Except.ok.inj hdigits ▸ hreverse
  | succ steps ih =>
    rw [takeDigits] at h
    split at h
    · rename_i c l₁ hpeek
      split at h
      · rename_i hc
        have hcons : ∀ d ∈ c :: done, isDigit d = true := List.forall_mem_cons.2 ⟨hc, hdone⟩
        exact ih h hcons fun d hd => hcons d (List.mem_reverse.1 hd)
      · obtain ⟨hdigits, -⟩ := Prod.mk.inj h
        exact Except.ok.inj hdigits ▸ hreverse
    · obtain ⟨hdigits, -⟩ := Prod.mk.inj h
      exact Except.ok.inj hdigits ▸ hreverse
    · cases (Prod.mk.inj h).1

/-- A conversion that is right about runs of at most 19 digits makes every reader of numbers what it
is, so that no reader ever converts more digits than that. -/
theorem numberBy_eq (h : RightUpTo maxDigits convert) (config : Config) (steps : Nat) (l : Lexer) :
    numberBy convert config steps l =
      (some (numberIn config steps l).1, (numberIn config steps l).2) := by
  rcases htake : takeDigits steps [] l with ⟨f | digits, after⟩
  · simp only [numberBy, numberIn, htake]
  · have hd := isDigit_of_takeDigits htake (List.forall_mem_nil _)
    cases digits with
    | nil => simp only [numberBy, numberIn, htake]
    | cons d ds =>
      simp only [numberBy, numberIn, htake, boundedBy_eq h hd]
      cases boundedValue? (d :: ds) with
      | none => rfl
      | some n => rfl

/-! ### Numbers are read exactly -/

/-- What is read of a run of digits behind the number prefix at `position`. -/
structure NumberRead (config : Config) (position : Position) (digits : List Char)
    (result : Except Failure Token) : Prop where
  missing (h : digits = []) :
    result = .error (.rejected (.diagnostic
      ⟨position, .numberMissing [config.numberPrefix]⟩))
  value (h : digits ≠ []) (hle : Nat.ofDigitChars 10 digits 0 ≤ 9223372036854775807) :
    result = .ok (.number (Nat.ofDigitChars 10 digits 0))
  /-- all digits are reported, with the leading zeros -/
  overflow (h : 9223372036854775807 < Nat.ofDigitChars 10 digits 0) :
    result = .error (.rejected (.diagnostic
      ⟨position, .numberOverflow [config.numberPrefix] (String.ofList digits) 9223372036854775807⟩))

theorem numberRead_numeral (config : Config) (position : Position) (digits : List Char) :
    NumberRead config position digits ((numeral config position digits).mapError .rejected) where
  missing h := by
    rw [numeral, if_pos h]
    rfl
  value h hle := by
    rw [← digitsValue_eq] at hle ⊢
    rw [numeral, if_neg h, if_pos (show digitsValue digits ≤ maxNumber from hle)]
    rfl
  overflow h := by
    have hne : digits ≠ [] := by
      rintro rfl
      exact absurd h (by decide)
    rw [← digitsValue_eq] at h
    rw [numeral, if_neg hne, if_neg (Nat.not_le.2 (show maxNumber < digitsValue digits from h))]
    rfl

/-- The reader of items comes to a number at a number prefix that is not bound. -/
theorem Stands.readItem_number {l : Lexer} {config : Config} {marker : Char} {s : List Char}
    {p : Position} {m : MacroTable} {e : Ending} (hmarker : config.numberPrefix = marker)
    (h : l.Stands ⟨marker :: s, p, m⟩ e) (hbound : m.lookup marker = none)
    (hends : e = .quiet ∨ s.dropWhile isDigit ≠ []) (depth : Nat) :
    ∃ after, l.readItem config (depth + 1) =
        (((numeral config (p.advance marker) (s.takeWhile isDigit)).mapError .rejected).map
          .token, after) ∧
      after.Stands ⟨s.dropWhile isDigit,
        (p.advance marker).advanceBy (s.takeWhile isDigit), m⟩ e := by
  obtain ⟨l₁, hnext, h₁⟩ := h.next_cons
  have hsteps := h.length_le
  simp only [List.length_cons] at hsteps
  obtain ⟨steps, hlast⟩ : ∃ n, l.steps = n + 1 := ⟨l.steps - 1, by omega⟩
  obtain ⟨after, hread, hafter⟩ :=
    h₁.numberIn config (by omega : s.length < steps) hends
  have hmacros : l₁.macros = m := h₁.macros
  have hrole := Config.roleOf_eq_numberPrefix_iff.2 hmarker
  refine ⟨after, ?_, hafter⟩
  simp only [readItem, hlast, itemIn, hnext, hmacros, hbound, hrole, hread]
  cases numeral .. <;> rfl

/-- Of the digits behind a number prefix, whatever roles they have and whatever they are bound to,
exactly the longest run is consumed. Its value is the number, if there are any digits and the value
is not too large; otherwise the prefix is reported. No more than 19 digits are ever converted, so
that the limit of numerals is not met. -/
theorem readNumber_exact (config : Config) {digits rest : List Char} (p : Position)
    (m : MacroTable) {e : Ending} (hd : ∀ c ∈ digits, isDigit c = true)
    (hr : ∀ c ∈ rest.head?, isDigit c = false) (hend : rest = [] → e = .quiet) :
    (∀ l : Lexer, l.Stands ⟨digits ++ rest, p, m⟩ e →
      ∃ result after, l.readNumber config = (result, after) ∧
        NumberRead config p digits result ∧
        after.Stands ⟨rest, p.advanceBy digits, m⟩ e) ∧
    (∀ (l : Lexer) (depth : Nat) (marker : Char), config.numberPrefix = marker →
      l.Stands ⟨marker :: (digits ++ rest), p, m⟩ e → m.lookup marker = none →
      ∃ result after, l.readItem config (depth + 1) = (result.map .token, after) ∧
        NumberRead config (p.advance marker) digits result ∧
        after.Stands ⟨rest, (p.advance marker).advanceBy digits, m⟩ e) ∧
    (∀ convert, RightUpTo 19 convert → ∀ (steps : Nat) (l : Lexer),
      numberBy convert config steps l =
        (some (numberIn config steps l).1, (numberIn config steps l).2)) ∧
    RightUpTo 4300 fun digits => Text.readInteger? (String.ofList digits) := by
  have htake := takeWhile_digits hd hr
  have hdrop := dropWhile_digits hd hr
  have hends : e = .quiet ∨ (digits ++ rest).dropWhile isDigit ≠ [] := by
    rw [hdrop]
    by_cases hrest : rest = []
    · exact .inl (hend hrest)
    · exact .inr hrest
  refine ⟨fun l hl => ?_, fun l depth marker hmarker hl hbound => ?_,
    fun convert hconvert steps l => numberBy_eq hconvert config steps l, rightUpTo_readInteger?⟩
  · have hlength := hl.length_le
    have hsteps : (digits ++ rest).length < l.steps := by
      simp only at hlength
      omega
    obtain ⟨after, hread, hafter⟩ := hl.numberIn config hsteps hends
    rw [htake] at hread hafter
    rw [hdrop] at hafter
    exact ⟨_, after, hread, numberRead_numeral config p digits, hafter⟩
  · obtain ⟨after, hread, hafter⟩ := hl.readItem_number hmarker hbound hends depth
    rw [htake] at hread hafter
    rw [hdrop] at hafter
    exact ⟨_, after, hread, numberRead_numeral config _ digits, hafter⟩

/-- A digit that is bound, a number one too large with zeros before it, and an operator behind it,
from a source that fails at its end. -/
theorem readNumber_exact_overflow :
    let digits := "0009223372036854775808".toList
    let fault : Ending := .fault (.system "disk error")
    let m := MacroTable.empty.bind '9' (.operator "+")
    let l : Lexer := { ofSource (.ofText ('#' :: (digits ++ ['+'])) fault) with macros := m }
    (∀ c ∈ digits, isDigit c = true) ∧ isDigit '+' = false ∧
      l.Stands ⟨'#' :: (digits ++ ['+']), .start, m⟩ fault ∧ m.lookup '#' = none ∧
      (l.readItem .standard 1).1 = .error (.rejected (.diagnostic
        ⟨⟨1, 1⟩, .numberOverflow "#" "0009223372036854775808" 9223372036854775807⟩)) ∧
      (l.readItem .standard 1).2.Stands
        ⟨['+'], (Position.start.advance '#').advanceBy digits, m⟩ fault := by
  intro digits fault m l
  have hd : ∀ c ∈ digits, isDigit c = true := List.all_eq_true.1 (by decide)
  have hr : ∀ c ∈ ['+'].head?, isDigit c = false := by simp [isDigit]
  have hl : l.Stands ⟨'#' :: (digits ++ ['+']), .start, m⟩ fault :=
    ⟨Source.left_ofText _ _, rfl, rfl, Source.ending_ofText _ _⟩
  have hbound : m.lookup '#' = none := by decide
  obtain ⟨-, hitem, -, -⟩ :=
    readNumber_exact .standard .start m hd hr (fun h => absurd h (List.cons_ne_nil _ _))
  obtain ⟨result, after, hread, hnumber, hafter⟩ := hitem l 0 '#' rfl hl hbound
  have hresult := hnumber.overflow (by decide)
  rw [hread, hresult]
  exact ⟨hd, by decide, hl, hbound, rfl, hafter⟩

end Lexer

end Unroll
