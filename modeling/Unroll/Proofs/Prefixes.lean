import Unroll.Proofs.Parsing
import Unroll.Proofs.Spelling

/-!
# What is taken of a document

Texts, numbers and words are read from the characters that are taken, and what follows matters only
where it could have been taken as well: blanks behind blanks, and whatever goes on a number. So what
was read in one place is read in any other, from the same characters.

* `ReadsText`, `readText_local` — a text ends with its quote, whatever follows;
* `Ends`, `AllBlank`, `skipBlanks_append` — runs of characters of a kind;
* `numberAt`, `readNumber?_local` — a number in front of what does not go on it;
* `readWord?_of_mem` — a word, whatever follows.
-/

namespace Unroll.Json

variable {opening steps depth index : Nat} {done t : CodeText} {s rest : List Char} {after : Cursor}

/-! ### Texts -/

/-- Characters taken from a text, as many as have to be looked at to tell what the first of them
stand for. -/
inductive Settled : List Char → Prop where
  | plain {c : Char} {tail : List Char} (hc : c ≠ '\\') : Settled (c :: tail)
  | short {c : Char} {tail : List Char} (hc : c ≠ 'u') : Settled ('\\' :: c :: tail)
  | unit {a b c d e : Char} {tail : List Char} :
      Settled ('\\' :: 'u' :: a :: b :: c :: d :: e :: tail)

theorem Settled.exists_cons {front : List Char} (h : Settled front) :
    ∃ c tail, front = c :: tail := by
  cases h <;> exact ⟨_, _, rfl⟩

theorem secondHalf?_append {front : List Char} (h : Settled front) (rest : List Char) :
    secondHalf? (front ++ rest) =
      (secondHalf? front).map (·.map fun half => (half.1, half.2 ++ rest)) := by
  cases h with
  | @plain c tail hc =>
    have hnone : ∀ tail, secondHalf? (c :: tail) = none := by
      intro tail
      unfold secondHalf?
      split
      · rename_i heq
        exact absurd (List.cons.inj heq).1 hc
      · rfl
    rw [List.cons_append, hnone, hnone]
    rfl
  | @short c tail hc =>
    have hnone : ∀ tail, secondHalf? ('\\' :: c :: tail) = none := by
      intro tail
      unfold secondHalf?
      split
      · rename_i heq
        exact absurd (List.cons.inj (List.cons.inj heq).2).1 hc
      · rfl
    rw [List.cons_append, List.cons_append, hnone, hnone]
    rfl
  | @unit a b c d e tail =>
    simp only [List.cons_append, secondHalf?, Option.map_some]
    rcases hexNumber? a b c d with _ | n <;> rfl

theorem secondHalf?_eq_some {s x : List Char} {m : Nat} (h : secondHalf? s = some (some (m, x))) :
    ∃ a b c d e tail, s = '\\' :: 'u' :: a :: b :: c :: d :: e :: tail ∧
      hexNumber? a b c d = some m ∧ x = e :: tail := by
  unfold secondHalf? at h
  split at h
  · rename_i a b c d e tail
    obtain ⟨n, hn, heq⟩ := Option.map_eq_some_iff.1 (Option.some.inj h)
    obtain ⟨rfl, rfl⟩ := Prod.mk.inj heq
    exact ⟨a, b, c, d, e, tail, rfl, hn, rfl⟩
  · cases h

theorem mem_shortEscapes {c e : Char} (h : shortEscape? e = some c) : (c, e) ∈ shortEscapes := by
  unfold shortEscape? at h
  split at h
  case h_9 => cases h
  all_goals
    obtain rfl := Option.some.inj h
    decide

/-- Whether a half stands alone can be told from what has to be looked at. -/
theorem alone_append {n : Nat} {front : List Char} (hsettled : Settled front)
    (rest : List Char) : Alone n (front ++ rest) ↔ Alone n front := by
  rw [Alone, Alone, secondHalf?_append hsettled]
  simp only [Option.map_eq_some_iff]
  refine imp_congr_right fun _ => ⟨fun h half hhalf => ?_, ?_⟩
  · obtain ⟨m, x, heq, hlow⟩ := h _ ⟨half, hhalf, rfl⟩
    obtain ⟨⟨m', x'⟩, rfl, hpair⟩ := Option.map_eq_some_iff.1 heq
    obtain ⟨rfl, -⟩ := Prod.mk.inj hpair
    exact ⟨_, _, rfl, hlow⟩
  · rintro h _ ⟨half, hhalf, rfl⟩
    obtain ⟨m, x, rfl, hlow⟩ := h half hhalf
    exact ⟨m, x ++ rest, rfl, hlow⟩

/-- What a text is read as, with the code points `done` before it, when `front` is taken, whatever
follows. -/
def ReadsText (done t : CodeText) (front : List Char) : Prop :=
  ∀ rest steps opening index, front.length ≤ steps →
    ∃ last, readText opening steps done index (front ++ rest) = .ok (t, ⟨rest, last⟩)

theorem readsText_quote : ReadsText done done.reverse ['\x22'] := by
  intro rest steps opening index hsteps
  obtain ⟨steps, rfl⟩ : ∃ k, steps = k + 1 := Nat.exists_eq_add_one.2 hsteps
  exact ⟨_, rfl⟩

section

variable {a b c d a' b' c' d' e : Char} {n m : Nat} {front : List Char}

theorem ReadsText.plain (hread : ReadsText (.char c :: done) t front) (hcontrol : 0x20 ≤ c.toNat)
    (hquote : c ≠ '\x22') (hbackslash : c ≠ '\\') : ReadsText done t (c :: front) := by
  intro rest steps opening index hsteps
  rw [List.length_cons] at hsteps
  obtain ⟨steps, rfl⟩ : ∃ k, steps = k + 1 := ⟨steps - 1, by omega⟩
  rw [List.cons_append, readText_plain hcontrol hquote hbackslash]
  exact hread rest steps opening (index + 1) (by omega)

theorem ReadsText.short (hread : ReadsText (.char c :: done) t front)
    (he : shortEscape? e = some c) : ReadsText done t ('\\' :: e :: front) := by
  intro rest steps opening index hsteps
  simp only [List.length_cons] at hsteps
  obtain ⟨steps, rfl⟩ : ∃ k, steps = k + 1 := ⟨steps - 1, by omega⟩
  rw [List.cons_append, List.cons_append, readText_short (mem_shortEscapes he)]
  exact hread rest steps opening (index + 2) (by omega)

theorem ReadsText.alone (hread : ReadsText (.ofNumber n :: done) t front)
    (hn : hexNumber? a b c d = some n) (hsettled : Settled front) (h : Alone n front) :
    ReadsText done t ('\\' :: 'u' :: a :: b :: c :: d :: front) := by
  intro rest steps opening index hsteps
  simp only [List.length_cons] at hsteps
  obtain ⟨steps, rfl⟩ : ∃ k, steps = k + 1 := ⟨steps - 1, by omega⟩
  have halone := (alone_append hsettled rest).2 h
  obtain ⟨last, hlast⟩ := hread rest steps opening (index + 6) (by omega)
  obtain ⟨e, tail, rfl⟩ := hsettled.exists_cons
  exact ⟨last, (readText_alone hn halone).trans hlast⟩

theorem ReadsText.pair (hread : ReadsText (joinSurrogates n m :: done) t front)
    (hn : hexNumber? a b c d = some n) (hm : hexNumber? a' b' c' d' = some m)
    (hhigh : isHighSurrogate n = true) (hlow : isLowSurrogate m = true)
    (hsettled : Settled front) :
    ReadsText done t
      ('\\' :: 'u' :: a :: b :: c :: d :: '\\' :: 'u' :: a' :: b' :: c' :: d' :: front) := by
  intro rest steps opening index hsteps
  simp only [List.length_cons] at hsteps
  obtain ⟨steps, rfl⟩ : ∃ k, steps = k + 1 := ⟨steps - 1, by omega⟩
  obtain ⟨last, hlast⟩ := hread rest steps opening (index + 12) (by omega)
  obtain ⟨e, tail, rfl⟩ := hsettled.exists_cons
  refine ⟨last, Eq.trans ?_ hlast⟩
  simp only [List.cons_append, readText, hn, hhigh, secondHalf?, hm, Option.map_some, hlow, if_true]

theorem Settled.unit_of (h : Settled front) :
    Settled ('\\' :: 'u' :: a :: b :: c :: d :: front) := by
  obtain ⟨e, tail, rfl⟩ := h.exists_cons
  exact .unit

end

/-- A text is read from the characters that are taken, whatever follows them. -/
theorem readText_local (h : readText opening steps done index s = .ok (t, after)) :
    ∃ front, s = front ++ after.rest ∧ Settled front ∧ ReadsText done t front := by
  fun_induction readText opening steps done index s with
  -- the closing quote
  | case3 steps done index rest hsteps =>
    obtain ⟨rfl, rfl⟩ := Prod.mk.inj (Except.ok.inj h)
    exact ⟨['\x22'], rfl, .plain (by decide), readsText_quote⟩
  -- both halves of a pair
  | case7 steps done index a b c d e s n hn hhigh m x hsecond hlow ih =>
    obtain ⟨front, hsplit, hsettled, hread⟩ := ih h
    obtain ⟨a', b', c', d', e', tail, heq, hm, rfl⟩ := secondHalf?_eq_some hsecond
    exact ⟨'\\' :: 'u' :: a :: b :: c :: d :: '\\' :: 'u' :: a' :: b' :: c' :: d' :: front,
      by rw [heq, hsplit]; rfl, .unit, hread.pair hn hm hhigh hlow hsettled⟩
  -- a first half, with a number behind it that is no second one
  | case8 steps done index a b c d e s n hn hhigh m x hsecond hlow ih =>
    obtain ⟨front, hsplit, hsettled, hread⟩ := ih h
    have halone : Alone n (e :: s) := by
      intro _ half hhalf
      rw [hsecond] at hhalf
      exact ⟨m, x, (Option.some.inj hhalf).symm, Bool.eq_false_iff.2 hlow⟩
    rw [hsplit, alone_append hsettled] at halone
    exact ⟨_, by rw [hsplit]; rfl, hsettled.unit_of, hread.alone hn hsettled halone⟩
  -- a first half, with no number behind it
  | case9 steps done index a b c d e s n hn hhigh hsecond ih =>
    obtain ⟨front, hsplit, hsettled, hread⟩ := ih h
    have halone : Alone n (e :: s) := by
      intro _ half hhalf
      rw [hsecond] at hhalf
      cases hhalf
    rw [hsplit, alone_append hsettled] at halone
    exact ⟨_, by rw [hsplit]; rfl, hsettled.unit_of, hread.alone hn hsettled halone⟩
  -- a number that is no first half
  | case10 steps done index a b c d e s n hn hhigh ih =>
    obtain ⟨front, hsplit, hsettled, hread⟩ := ih h
    exact ⟨_, by rw [hsplit]; rfl, hsettled.unit_of,
      hread.alone hn hsettled fun htrue => absurd htrue hhigh⟩
  -- a short escape
  | case13 steps done index e s he c hc ih =>
    obtain ⟨front, hsplit, -, hread⟩ := ih h
    exact ⟨'\\' :: e :: front, by rw [hsplit]; rfl, .short he, hread.short hc⟩
  -- a character that stands for itself
  | case15 steps done index c s hquote hlast hunit hshort hcontrol ih =>
    obtain ⟨front, hsplit, -, hread⟩ := ih h
    have hc : c ≠ '\\' := by
      rintro rfl
      cases s with
      | nil => exact hlast rfl rfl
      | cons d s => exact hshort d s rfl rfl
    exact ⟨c :: front, by rw [hsplit]; rfl, .plain hc, hread.plain (by omega) hquote hc⟩
  -- everything else is refused
  | _ => cases h

/-! ### Blanks -/

/-- What comes next, if anything does, is not of a kind. -/
def Ends (isKind : Char → Bool) (rest : List Char) : Prop := ∀ c ∈ rest.head?, isKind c = false

theorem Ends.cons {isKind : Char → Bool} {c : Char} (h : isKind c = false) (s : List Char) :
    Ends isKind (c :: s) := by
  intro d hd
  obtain rfl := Option.some.inj hd
  exact h

theorem Ends.append {isKind : Char → Bool} {front : List Char} (hfront : Ends isKind front)
    (hrest : Ends isKind rest) : Ends isKind (front ++ rest) := by
  cases front with
  | nil => exact hrest
  | cons c front => exact .cons (hfront c rfl) _

theorem Ends.mono {isKind isMore : Char → Bool} (h : Ends isMore rest)
    (hle : ∀ c, isKind c = true → isMore c = true) : Ends isKind rest := by
  intro c hc
  have hmore := h c hc
  rw [Bool.eq_false_iff] at hmore ⊢
  exact mt (hle c) hmore

/-- Characters of a kind are taken, and no more. -/
theorem takeWhile_of_ends {isKind : Char → Bool} {front : List Char}
    (hfront : ∀ c ∈ front, isKind c = true) (hrest : Ends isKind rest) :
    (front ++ rest).takeWhile isKind = front ∧ (front ++ rest).dropWhile isKind = rest := by
  induction front with
  | nil =>
    cases rest with
    | nil => exact ⟨rfl, rfl⟩
    | cons c rest =>
      have hc : ¬ isKind c = true := by simp [hrest c rfl]
      exact ⟨List.takeWhile_cons_of_neg hc, List.dropWhile_cons_of_neg hc⟩
  | cons c front ih =>
    obtain ⟨hc, hfront⟩ := List.forall_mem_cons.1 hfront
    obtain ⟨htake, hdrop⟩ := ih hfront
    rw [List.cons_append, List.takeWhile_cons_of_pos hc, List.dropWhile_cons_of_pos hc, htake]
    exact ⟨rfl, hdrop⟩

/-- Nothing but blanks. -/
def AllBlank (gap : List Char) : Prop := ∀ c ∈ gap, Cursor.isBlank c = true

/-- Blanks are skipped, and no more. -/
theorem skipBlanks_append {gap : List Char} (hgap : AllBlank gap)
    (hrest : Ends Cursor.isBlank rest) (index : Nat) :
    ∃ last, Cursor.skipBlanks ⟨gap ++ rest, index⟩ = ⟨rest, last⟩ := by
  obtain ⟨htake, hdrop⟩ := takeWhile_of_ends hgap hrest
  exact ⟨_, by rw [Cursor.skipBlanks, Cursor.past, hdrop]⟩

theorem skipBlanks_split (cursor : Cursor) :
    ∃ gap, AllBlank gap ∧ cursor.rest = gap ++ cursor.skipBlanks.rest :=
  ⟨_, fun _ hc => List.all_eq_true.1 (List.all_takeWhile) _ hc,
    List.takeWhile_append_dropWhile.symm⟩

theorem skipBlanks_behind (cursor : Cursor) (n : Nat) (s : List Char) :
    ∃ gap, AllBlank gap ∧ s = gap ++ (cursor.past n s).skipBlanks.rest :=
  skipBlanks_split (cursor.past n s)

/-! ### Words and numbers -/

theorem ne_of_isDigit {d c : Char} (hd : d.isDigit = true) (hc : c.isDigit = false) : d ≠ c := by
  rintro rfl
  rw [hd] at hc
  cases hc

/-- The characters that may go on the digits of a whole number. -/
def isDecimal (c : Char) : Bool := c.isDigit || c = '.'

/-- The characters that may go on a number that has neither a point nor an exponent. -/
def isNumeric (c : Char) : Bool := isDecimal c || c = 'e' || c = 'E'

theorem ends_isDigit (h : Ends isDecimal rest) : Ends Char.isDigit rest :=
  h.mono fun c hc => by rw [isDecimal, hc, Bool.true_or]

theorem ends_isDecimal (h : Ends isNumeric rest) : Ends isDecimal rest :=
  h.mono fun c hc => by rw [isNumeric, hc, Bool.true_or, Bool.true_or]

theorem isDigit_of_mem_takeDigits {c : Char} {s : List Char} (h : c ∈ takeDigits s) :
    c.isDigit = true := List.all_eq_true.1 List.all_takeWhile c h

/-- Digits are taken, and no more. -/
theorem takeDigits_split (s : List Char) : ∃ x, s = takeDigits s ++ x ∧
    ∀ rest, Ends Char.isDigit rest → takeDigits (takeDigits s ++ rest) = takeDigits s :=
  ⟨_, List.takeWhile_append_dropWhile.symm, fun _ hrest =>
    (takeWhile_of_ends (fun _ => isDigit_of_mem_takeDigits) hrest).1⟩

/-- The digits of a whole number are taken, and no more. -/
theorem wholeDigits_split (s : List Char) : ∃ x, s = wholeDigits s ++ x ∧
    (∀ c ∈ wholeDigits s, c.isDigit = true) ∧ ∀ rest, Ends Char.isDigit rest → wholeDigits s ≠ [] →
      wholeDigits (wholeDigits s ++ rest) = wholeDigits s := by
  have hother : ∀ {s}, (∀ x, s ≠ '0' :: x) → wholeDigits s = takeDigits s := by
    intro s hs
    unfold wholeDigits
    split
    · exact absurd rfl (hs _)
    · rfl
  by_cases hzero : ∃ x, s = '0' :: x
  · obtain ⟨x, rfl⟩ := hzero
    exact ⟨x, rfl, by simp [wholeDigits], fun _ _ _ => rfl⟩
  · have hs : ∀ x, s ≠ '0' :: x := fun x heq => hzero ⟨x, heq⟩
    obtain ⟨x, hsplit, htake⟩ := takeDigits_split s
    rw [hother hs]
    refine ⟨x, hsplit, fun _ => isDigit_of_mem_takeDigits, fun rest hrest hne => ?_⟩
    rw [hother, htake rest hrest]
    intro y heq
    obtain ⟨d, digits, hcons⟩ := List.exists_cons_of_ne_nil hne
    rw [hcons, List.cons_append] at hsplit heq
    obtain ⟨rfl, -⟩ := List.cons.inj heq
    exact hs _ hsplit

/-- How many characters a decimal point takes with the digits after it. -/
def fractionLength (fraction : List Char) : Nat :=
  if fraction.isEmpty then 0 else fraction.length + 1

/-- A decimal point with digits after it is taken, and no more. -/
theorem fractionDigits_split (s : List Char) : ∃ front x, s = front ++ x ∧
    front.length = fractionLength (fractionDigits s) ∧ Ends Char.isDigit front ∧
    ∀ rest, Ends isDecimal rest → fractionDigits (front ++ rest) = fractionDigits s := by
  have hother : ∀ {rest}, (∀ x, rest ≠ '.' :: x) → fractionDigits rest = [] := by
    intro rest hrest
    unfold fractionDigits
    split
    · exact absurd rfl (hrest _)
    · rfl
  -- without digits behind a point nothing is taken
  have hnone : fractionDigits s = [] → ∃ front x, s = front ++ x ∧
      front.length = fractionLength (fractionDigits s) ∧ Ends Char.isDigit front ∧
      ∀ rest, Ends isDecimal rest → fractionDigits (front ++ rest) = fractionDigits s := by
    intro h
    rw [h]
    refine ⟨[], s, rfl, rfl, by simp [Ends], fun rest hrest => hother ?_⟩
    rintro x rfl
    exact absurd (hrest '.' rfl) (by decide)
  by_cases hs : ∃ t, s = '.' :: t
  · obtain ⟨t, rfl⟩ := hs
    obtain ⟨x, hsplit, htake⟩ := takeDigits_split t
    by_cases hempty : takeDigits t = []
    · exact hnone hempty
    · refine ⟨'.' :: takeDigits t, x, congrArg _ hsplit, ?_, .cons (by decide) _, fun rest hrest =>
        htake rest (ends_isDigit hrest)⟩
      rw [fractionLength, if_neg (by simpa [fractionDigits] using hempty)]
      rfl
  · exact hnone (hother fun t heq => hs ⟨t, heq⟩)

/-- The exponent that the digits behind a sign give. -/
def exponentOf (negative : Bool) (signLength : Nat) (digits : List Char) : Option (Int × Nat) :=
  if digits.isEmpty then none
  else
    let n : Int := digitsValue digits
    some (if negative then -n else n, 1 + signLength + digits.length)

/-- The sign of an exponent, as a truth value and as it stands, and what follows. -/
def splitSign : List Char → Bool × List Char × List Char
  | '-' :: s => (true, ['-'], s)
  | '+' :: s => (false, ['+'], s)
  | s => (false, [], s)

theorem splitSign_plain {c : Char} (hminus : c ≠ '-') (hplus : c ≠ '+') (s : List Char) :
    splitSign (c :: s) = (false, [], c :: s) := by
  unfold splitSign
  split
  · rename_i heq
    exact absurd (List.cons.inj heq).1 hminus
  · rename_i heq
    exact absurd (List.cons.inj heq).1 hplus
  · rfl

/-- The sign is taken, and no more. -/
theorem splitSign_split (s : List Char) : s = (splitSign s).2.1 ++ (splitSign s).2.2 ∧
    ∀ digits rest, (splitSign s).2.2 = digits ++ rest → digits ≠ [] → ∀ other,
      splitSign ((splitSign s).2.1 ++ digits ++ other) =
        ((splitSign s).1, (splitSign s).2.1, digits ++ other) := by
  rcases s with _ | ⟨c, s⟩
  · refine ⟨rfl, fun digits rest heq hne => ?_⟩
    exact absurd (List.append_eq_nil_iff.1 heq.symm).1 hne
  · by_cases hminus : c = '-'
    · subst hminus
      exact ⟨rfl, fun _ _ _ _ _ => rfl⟩
    · by_cases hplus : c = '+'
      · subst hplus
        exact ⟨rfl, fun _ _ _ _ _ => rfl⟩
      · rw [splitSign_plain hminus hplus]
        refine ⟨rfl, fun digits rest heq hne other => ?_⟩
        obtain ⟨d, digits, rfl⟩ := List.exists_cons_of_ne_nil hne
        obtain ⟨rfl, -⟩ := List.cons.inj heq
        exact splitSign_plain hminus hplus _

theorem exponent?_cons {e : Char} (he : e = 'e' ∨ e = 'E') (s : List Char) :
    exponent? (e :: s) =
      exponentOf (splitSign s).1 (splitSign s).2.1.length (takeDigits (splitSign s).2.2) := by
  have he' : (decide (e = 'e') || decide (e = 'E')) = true := by simpa using he
  fun_cases splitSign s <;> simp only [exponent?, if_pos he'] <;> rfl

theorem exponent?_of_ends {rest : List Char} (h : Ends isNumeric rest) : exponent? rest = none := by
  rcases rest with _ | ⟨c, rest⟩
  · rfl
  · have hc := h c rfl
    simp only [isNumeric, Bool.or_eq_false_iff, decide_eq_false_iff_not] at hc
    simp [exponent?, hc]

/-- An exponent is taken, and no more. -/
theorem exponent?_split (s : List Char) : ∃ front x, s = front ++ x ∧
    front.length = ((exponent? s).map (·.2)).getD 0 ∧ Ends isDecimal front ∧
    ∀ rest, Ends isNumeric rest → exponent? (front ++ rest) = exponent? s := by
  -- where no exponent begins, nothing is taken
  have hnone : exponent? s = none → ∃ front x, s = front ++ x ∧
      front.length = ((exponent? s).map (·.2)).getD 0 ∧ Ends isDecimal front ∧
      ∀ rest, Ends isNumeric rest → exponent? (front ++ rest) = exponent? s := by
    intro h
    rw [h]
    exact ⟨[], s, rfl, rfl, by simp [Ends], fun _ hrest => exponent?_of_ends hrest⟩
  rcases s with _ | ⟨e, s⟩
  · exact hnone rfl
  by_cases he : e = 'e' ∨ e = 'E'
  · obtain ⟨hsign, hother⟩ := splitSign_split s
    obtain ⟨x, hx, htake⟩ := takeDigits_split (splitSign s).2.2
    have hexponent := exponent?_cons he s
    by_cases hempty : takeDigits (splitSign s).2.2 = []
    · rw [hempty] at hexponent
      exact hnone hexponent
    · refine ⟨e :: ((splitSign s).2.1 ++ takeDigits (splitSign s).2.2), x, ?_, ?_, .cons ?_ _,
        fun rest hrest => ?_⟩
      · rw [List.cons_append, List.append_assoc, ← hx, ← hsign]
      · rw [hexponent, exponentOf, if_neg (by simpa using hempty)]
        simp only [List.length_cons, List.length_append, Option.map_some, Option.getD_some]
        omega
      · rcases he with rfl | rfl <;> rfl
      · rw [List.cons_append, exponent?_cons he, hother _ _ hx hempty, hexponent]
        simp only [htake rest (ends_isDigit (ends_isDecimal hrest))]
  · exact hnone (by simp [exponent?, he])

/-- The number of which the parts are given, before what is left. -/
def numberOf (negative : Bool) (whole fraction : List Char) (exponent : Option (Int × Nat))
    (after : Cursor) : Option (Except Failure (Value × Cursor)) :=
  if fraction.isEmpty && exponent.isNone then
    if Text.maxNumeralDigits < whole.length then some (.error (.oversized whole.length))
    else
      let n : Int := digitsValue whole
      some (.ok (.integer (if negative then -n else n), after))
  else
    let place := (exponent.map (·.1)).getD 0 - fraction.length
    some (.ok (.real (.ofDecimal negative (digitsValue (whole ++ fraction)) place), after))

theorem numberOf_ok {negative : Bool} {whole fraction : List Char} {exponent : Option (Int × Nat)}
    {start after : Cursor} {v : Value}
    (h : numberOf negative whole fraction exponent start = some (.ok (v, after))) :
    after = start ∧
      ∀ other, numberOf negative whole fraction exponent other = some (.ok (v, other)) := by
  unfold numberOf at h ⊢
  split at h
  · split at h
    · cases Option.some.inj h
    · rename_i hparts hdigits
      obtain ⟨rfl, rfl⟩ := Prod.mk.inj (Except.ok.inj (Option.some.inj h))
      exact ⟨rfl, fun _ => by rw [if_pos hparts, if_neg hdigits]⟩
  · rename_i hparts
    obtain ⟨rfl, rfl⟩ := Prod.mk.inj (Except.ok.inj (Option.some.inj h))
    exact ⟨rfl, fun _ => by rw [if_neg hparts]⟩

theorem numberOf_error {negative : Bool} {whole fraction : List Char}
    {exponent : Option (Int × Nat)} {start : Cursor} {e : Failure}
    (h : numberOf negative whole fraction exponent start = some (.error e)) :
    e = .oversized whole.length ∧ Text.maxNumeralDigits < whole.length := by
  unfold numberOf at h
  split at h
  · split at h
    · rename_i hlong
      exact ⟨(Except.error.inj (Option.some.inj h)).symm, hlong⟩
    · cases Option.some.inj h
  · cases Option.some.inj h

/-- The number at the front of what is left, behind the sign. -/
def numberAt (negative : Bool) (start : Cursor) : Option (Except Failure (Value × Cursor)) :=
  let whole := wholeDigits start.rest
  if whole.isEmpty then none
  else
    let start := start.past whole.length (start.rest.drop whole.length)
    let fraction := fractionDigits start.rest
    let start := start.past (fractionLength fraction) (start.rest.drop (fractionLength fraction))
    let exponent := exponent? start.rest
    let exponentLength := (exponent.map (·.2)).getD 0
    numberOf negative whole fraction exponent
      (start.past exponentLength (start.rest.drop exponentLength))

theorem readNumber?_signed (s : List Char) (index : Nat) :
    readNumber? ⟨'-' :: s, index⟩ = numberAt true ⟨s, index + 1⟩ := rfl

theorem readNumber?_unsigned {c : Char} (hc : c ≠ '-') (s : List Char) (index : Nat) :
    readNumber? ⟨c :: s, index⟩ = numberAt false ⟨c :: s, index⟩ := by
  unfold readNumber?
  split
  rename_i heq
  split at heq
  · rename_i hminus
    exact absurd (List.cons.inj hminus).1 hc
  · obtain ⟨rfl, rfl⟩ := Prod.mk.inj heq
    rfl

/-- A number begins with its sign, or without one. -/
theorem readNumber?_cases {cursor : Cursor} {result : Except Failure (Value × Cursor)}
    (h : readNumber? cursor = some result) :
    (∃ s index, cursor = ⟨'-' :: s, index⟩ ∧ numberAt true ⟨s, index + 1⟩ = some result) ∨
    ∃ c s index, c ≠ '-' ∧ cursor = ⟨c :: s, index⟩ ∧
      numberAt false ⟨c :: s, index⟩ = some result := by
  obtain ⟨s, index⟩ := cursor
  rcases s with _ | ⟨c, s⟩
  · cases h
  · by_cases hc : c = '-'
    · subst hc
      exact .inl ⟨s, index, rfl, h⟩
    · rw [readNumber?_unsigned hc] at h
      exact .inr ⟨c, s, index, hc, rfl, h⟩

/-- What is read, when it is known of which characters each part of the number takes its own. -/
theorem numberAt_parts (negative : Bool) {whole point letter x y rest : List Char}
    (hwhole : wholeDigits (whole ++ x) = whole) (hne : whole ≠ []) (hx : x = point ++ y)
    (hpoint : point.length = fractionLength (fractionDigits x)) (hy : y = letter ++ rest)
    (hletter : letter.length = ((exponent? y).map (·.2)).getD 0) (index : Nat) :
    ∃ last, numberAt negative ⟨whole ++ x, index⟩ =
      numberOf negative whole (fractionDigits x) (exponent? y) ⟨rest, last⟩ := by
  have hx' : x.drop (fractionLength (fractionDigits x)) = y := by
    rw [← hpoint, hx, List.drop_left]
  have hy' : y.drop (((exponent? y).map (·.2)).getD 0) = rest := by
    rw [← hletter, hy, List.drop_left]
  refine ⟨index + whole.length + point.length + letter.length, ?_⟩
  simp only [numberAt, hwhole, List.isEmpty_iff, hne, if_false, Cursor.past, List.drop_left, hx',
    hy', hpoint, hletter]

/-- A number behind its sign is taken, and no more. -/
theorem numberAt_local {negative : Bool} {s : List Char} {after : Cursor} {v : Value}
    (h : numberAt negative ⟨s, index⟩ = some (.ok (v, after))) :
    ∃ d front, d.isDigit = true ∧ s = d :: front ++ after.rest ∧
      ∀ rest index, Ends isNumeric rest →
        ∃ last, numberAt negative ⟨d :: front ++ rest, index⟩ = some (.ok (v, ⟨rest, last⟩)) := by
  obtain ⟨x, hs, hdigits, hwhole⟩ := wholeDigits_split s
  have hne : wholeDigits s ≠ [] := by
    intro hempty
    simp [numberAt, hempty] at h
  obtain ⟨point, y, hx, hpoint, hpointEnds, hfraction⟩ := fractionDigits_split x
  obtain ⟨letter, z, hy, hletter, hletterEnds, hexponent⟩ := exponent?_split y
  obtain ⟨last, hlast⟩ :=
    numberAt_parts negative (by rw [← hs]) hne hx hpoint hy hletter index
  rw [← hs] at hlast
  obtain ⟨rfl, hother⟩ := numberOf_ok (hlast.symm.trans h)
  have hread : ∀ rest index, Ends isNumeric rest → ∃ last, numberAt negative
      ⟨wholeDigits s ++ (point ++ letter) ++ rest, index⟩ = some (.ok (v, ⟨rest, last⟩)) := by
    intro rest index hrest
    have hletterRest := hletterEnds.append (ends_isDecimal hrest)
    have hpointRest := hpointEnds.append (ends_isDigit hletterRest)
    obtain ⟨last, hlast⟩ := numberAt_parts negative (hwhole _ hpointRest hne) hne
      rfl (by rw [hfraction _ hletterRest, hpoint]) rfl (by rw [hexponent _ hrest, hletter]) index
    rw [hfraction _ hletterRest, hexponent _ hrest, hother] at hlast
    refine ⟨last, ?_⟩
    rw [List.append_assoc, List.append_assoc]
    exact hlast
  have hsplit : s = wholeDigits s ++ (point ++ letter) ++ z := by
    rw [List.append_assoc, List.append_assoc, ← hy, ← hx, ← hs]
  obtain ⟨d, digits, hcons⟩ := List.exists_cons_of_ne_nil hne
  rw [hcons] at hdigits hread hsplit
  exact ⟨d, digits ++ (point ++ letter), hdigits d List.mem_cons_self, hsplit, hread⟩

/-- A number is taken, and no more. -/
theorem readNumber?_local {cursor after : Cursor} {v : Value}
    (h : readNumber? cursor = some (.ok (v, after))) :
    ∃ front, cursor.rest = front ++ after.rest ∧
      ((∃ d tail, d.isDigit = true ∧ front = d :: tail) ∨
        ∃ d tail, d.isDigit = true ∧ front = '-' :: d :: tail) ∧
      ∀ rest index, Ends isNumeric rest →
        ∃ last, readNumber? ⟨front ++ rest, index⟩ = some (.ok (v, ⟨rest, last⟩)) := by
  obtain ⟨s, index, rfl, hnumber⟩ | ⟨c, s, index, hc, rfl, hnumber⟩ := readNumber?_cases h
  · obtain ⟨d, front, hd, rfl, hread⟩ := numberAt_local hnumber
    refine ⟨'-' :: d :: front, rfl, .inr ⟨d, front, hd, rfl⟩, fun rest index hrest => ?_⟩
    rw [List.cons_append, readNumber?_signed]
    exact hread rest _ hrest
  · obtain ⟨d, front, hd, hsplit, hread⟩ := numberAt_local hnumber
    obtain ⟨rfl, -⟩ := List.cons.inj hsplit
    refine ⟨c :: front, hsplit, .inl ⟨c, front, hd, rfl⟩, fun rest index hrest => ?_⟩
    rw [List.cons_append, readNumber?_unsigned hc]
    exact hread rest index hrest

/-- A word is taken, whatever follows it. -/
theorem readWord?_of_mem {word : String × Value} (h : word ∈ words) (rest : List Char)
    (index : Nat) :
    ∃ last, readWord? ⟨word.1.toList ++ rest, index⟩ = some (word.2, ⟨rest, last⟩) := by
  have hfirst : words.find? (fun other => other.1.toList.isPrefixOf (word.1.toList ++ rest)) =
      some word := by
    simp only [words, List.mem_cons, List.not_mem_nil, or_false] at h
    rcases h with rfl | rfl | rfl | rfl | rfl | rfl <;> rfl
  refine ⟨index + word.1.length, ?_⟩
  simp only [readWord?, hfirst, Option.map_some, Cursor.past, ← String.length_toList,
    List.drop_left]

end Unroll.Json
