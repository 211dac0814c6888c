import Unroll.Proofs.Documents
import Unroll.Proofs.Locality

/-!
# What is wrong with documents

A document that gives no configuration is refused, because it is malformed, is no object or has the
wrong settings, unless reading it breaks off before that is known, at a run of digits that is too
long or at lists and objects that are nested too deeply. Where reading breaks off can be seen in the
characters of the document, so that one with neither cause is read or refused.

* `Json.Blames`, `Json.read_error` — what is found in a document that has no value;
* `Json.RoomIgnored`, `Json.read_of_le` — more room makes no difference where there is enough;
* `Config.DocumentFault.Refusal`, `Config.DocumentFault.Escaping` — the two sorts of faults;
* `Config.readDocument_contained` — a document is read, or refused, or reading it breaks off.
-/

namespace Unroll

namespace Json

/-! ### What failures are about -/

variable {steps depth : Nat} {cursor : Cursor} {e : Failure}

/-- A run of digits that is too long. -/
def HasLongRun (n : Nat) (s : List Char) : Prop :=
  Text.maxNumeralDigits < n ∧ ∃ before digits after, s = before ++ (digits ++ after) ∧
    digits.length = n ∧ ∀ c ∈ digits, c.isDigit = true

/-- What the characters that are left have that makes reading fail, unless they are malformed: a run
of digits that is too long, or more brackets and braces than may be open. -/
def Blames (depth : Nat) (s : List Char) : Failure → Prop
  | .malformed _ _ => True
  | .oversized n => HasLongRun n s
  | .tooDeep => depth < s.countP isOpening

theorem Failure.IsMalformed.blames (h : e.IsMalformed) (depth : Nat) (s : List Char) :
    Blames depth s e := by
  cases e with
  | malformed => trivial
  | _ => exact absurd h id

theorem Blames.behind {s : List Char} (h : Blames depth s e) (front : List Char) :
    Blames depth (front ++ s) e := by
  cases e with
  | malformed => trivial
  | oversized n =>
    obtain ⟨hn, before, digits, after, rfl, hlength, hdigits⟩ := h
    exact ⟨hn, front ++ before, digits, after, (List.append_assoc ..).symm, hlength, hdigits⟩
  | tooDeep =>
    have hdepth : depth < s.countP isOpening := h
    rw [Blames, List.countP_append]
    omega

theorem Blames.inside {s : List Char} (h : Blames depth s e) {c : Char} (hc : isOpening c = true) :
    Blames (depth + 1) (c :: s) e := by
  cases e with
  | malformed => trivial
  | oversized n => exact h.behind [c]
  | tooDeep =>
    have hdepth : depth < s.countP isOpening := h
    rw [Blames, List.countP_cons_of_pos hc]
    omega

theorem Blames.skip (h : Blames depth cursor.skipBlanks.rest e) : Blames depth cursor.rest e := by
  obtain ⟨gap, -, hsplit⟩ := skipBlanks_split cursor
  rw [hsplit]
  exact h.behind gap

theorem numberAt_blames {negative : Bool} {s : List Char} {index : Nat}
    (h : numberAt negative ⟨s, index⟩ = some (.error e)) (depth : Nat) : Blames depth s e := by
  rw [numberAt] at h
  extract_lets at h
  split at h
  · cases h
  · obtain ⟨rfl, hlong⟩ := numberOf_error h
    obtain ⟨x, hs, hdigits, -⟩ := wholeDigits_split s
    exact ⟨hlong, [], wholeDigits s, x, hs, rfl, hdigits⟩

theorem readNumber?_blames (h : readNumber? cursor = some (.error e)) (depth : Nat) :
    Blames depth cursor.rest e := by
  obtain ⟨s, index, rfl, hnumber⟩ | ⟨c, s, index, -, rfl, hnumber⟩ := readNumber?_cases h
  · exact (numberAt_blames hnumber depth).behind ['-']
  · exact numberAt_blames hnumber depth

/-- What is blamed behind a value that was read is blamed in front of it as well. -/
theorem Blames.of_readValue {after : Cursor} {v : Value}
    (hread : readValue steps depth cursor = .ok (v, after)) (h : Blames depth after.rest e) :
    Blames depth cursor.rest e := by
  obtain ⟨front, hsplit, -⟩ := valuesLocal _ _ _ _ _ hread
  rw [hsplit]
  exact h.behind front

theorem Blames.of_readName {after : Cursor} {name : CodeText}
    (hread : readName steps cursor = .ok (name, after)) (h : Blames depth after.rest e) :
    Blames depth cursor.rest e := by
  obtain ⟨t, before, behind, hsplit, -⟩ := readName_local hread
  have hfront : cursor.rest = ('\x22' :: (t ++ (before ++ ':' :: behind))) ++ after.rest := by
    rw [hsplit]
    simp only [List.cons_append, List.append_assoc]
  rw [hfront]
  exact h.behind _

/-- A comma and blanks in front. -/
theorem Blames.of_comma {s : List Char} (hs : cursor.rest = ',' :: s)
    (h : Blames depth (cursor.past 1 s).skipBlanks.rest e) : Blames depth cursor.rest e := by
  rw [hs]
  exact Blames.behind (Blames.skip h) [',']

/-- With so many steps, the failures of all readers have their reason. -/
structure FailuresBlame (steps : Nat) : Prop where
  values : ∀ depth cursor e, readValue steps depth cursor = .error e → Blames depth cursor.rest e
  fields : ∀ depth fields cursor e,
    readFields steps depth fields cursor = .error e → Blames depth cursor.rest e
  items : ∀ depth items cursor e,
    readItems steps depth items cursor = .error e → Blames depth cursor.rest e

theorem failuresBlame (steps : Nat) : FailuresBlame steps := by
  induction steps with
  | zero =>
    constructor
    all_goals
      intros
      rename_i h
      simp only [readValue, readFields, readItems] at h
      obtain rfl := Except.error.inj h
      trivial
  | succ steps ih =>
    constructor
    case values =>
      intro depth cursor e h
      cases readValue_error h with
      | malformed hmalformed => exact hmalformed.blames _ _
      | @tooDeep c s hs hc he =>
        subst he
        rw [Blames, hs, List.countP_cons_of_pos hc]
        exact Nat.succ_pos _
      | @fields depth s hs hfields =>
        rw [hs]
        exact Blames.inside (Blames.skip (ih.fields _ _ _ _ hfields)) rfl
      | @items depth s hs hitems =>
        rw [hs]
        exact Blames.inside (Blames.skip (ih.items _ _ _ _ hitems)) rfl
      | number hnumber => exact readNumber?_blames hnumber depth
    case fields =>
      intro depth fields cursor e h
      rcases readFields_error h with h | ⟨name, inside, hname, h | ⟨value, last, s, hvalue, hs, h⟩⟩
      · exact h.blames _ _
      · exact .of_readName hname (ih.values _ _ _ h)
      · exact .of_readName hname (.of_readValue hvalue (.skip (.of_comma hs (ih.fields _ _ _ _ h))))
    case items =>
      intro depth items cursor e h
      rcases readItems_error h with h | h | ⟨value, last, s, hvalue, hs, h⟩
      · exact h.blames _ _
      · exact ih.values _ _ _ h
      · exact .of_readValue hvalue (.skip (.of_comma hs (ih.items _ _ _ _ h)))

/-- When a document has no value, it is malformed, or has what is blamed. -/
theorem read_error {document : List Char} (h : read depth document = .error e) :
    Blames depth document e := by
  rcases readValue_of_read_error h with hmalformed | hvalue
  · exact hmalformed.blames _ _
  · exact .skip ((failuresBlame _).values _ _ _ hvalue)

/-! ### Room that is not needed -/

/-- With so many steps, more room makes no difference where there is enough. -/
structure RoomIgnored (steps : Nat) : Prop where
  values : ∀ depth cursor, readValue steps depth cursor ≠ .error .tooDeep →
    readValue steps (depth + 1) cursor = readValue steps depth cursor
  fields : ∀ depth fields cursor, readFields steps depth fields cursor ≠ .error .tooDeep →
    readFields steps (depth + 1) fields cursor = readFields steps depth fields cursor
  items : ∀ depth items cursor, readItems steps depth items cursor ≠ .error .tooDeep →
    readItems steps (depth + 1) items cursor = readItems steps depth items cursor

theorem RoomIgnored.readValue (ih : RoomIgnored steps)
    (h : readValue (steps + 1) depth cursor ≠ .error .tooDeep) :
    Json.readValue (steps + 1) (depth + 1) cursor = Json.readValue (steps + 1) depth cursor := by
  by_cases hbrace : ∃ s, cursor.rest = '\x7b' :: s
  · obtain ⟨s, hs⟩ := hbrace
    cases depth with
    | zero => exact absurd (readValue_zero hs rfl) h
    | succ depth =>
      rw [readValue_brace hs] at h ⊢
      rw [readValue_brace hs]
      split at h
      · rfl
      · exact ih.fields _ _ _ h
  by_cases hbracket : ∃ s, cursor.rest = '[' :: s
  · obtain ⟨s, hs⟩ := hbracket
    cases depth with
    | zero => exact absurd (readValue_zero hs rfl) h
    | succ depth =>
      rw [readValue_bracket hs] at h ⊢
      rw [readValue_bracket hs]
      split at h
      · rfl
      · exact ih.items _ _ _ h
  -- neither a list nor an object, so that the room is not looked at
  · rw [Json.readValue, Json.readValue]
    split
    · rfl
    · rename_i s hs
      exact absurd ⟨s, hs⟩ hbrace
    · rename_i s hs
      exact absurd ⟨s, hs⟩ hbracket
    · rfl

theorem RoomIgnored.readFields (ih : RoomIgnored steps) {fields : List (CodeText × Value)}
    (h : readFields (steps + 1) depth fields cursor ≠ .error .tooDeep) :
    Json.readFields (steps + 1) (depth + 1) fields cursor =
      Json.readFields (steps + 1) depth fields cursor := by
  rw [Json.readFields] at h ⊢
  rw [Json.readFields]
  rcases hname : readName steps cursor with e | ⟨name, inside⟩
  · rfl
  · rw [hname] at h
    dsimp only at h ⊢
    have hvalue := ih.values depth inside
    rcases hread : Json.readValue steps depth inside with e | ⟨value, last⟩
    · rw [hread] at h hvalue
      rw [hvalue h]
    · rw [hread] at h hvalue
      rw [hvalue (by simp)]
      dsimp only at h ⊢
      split
      · rfl
      · rename_i s hs
        rw [hs] at h
        exact ih.fields _ _ _ h
      · rfl

theorem RoomIgnored.readItems (ih : RoomIgnored steps) {items : List Value}
    (h : readItems (steps + 1) depth items cursor ≠ .error .tooDeep) :
    Json.readItems (steps + 1) (depth + 1) items cursor =
      Json.readItems (steps + 1) depth items cursor := by
  rw [Json.readItems] at h ⊢
  rw [Json.readItems]
  have hvalue := ih.values depth cursor
  rcases hread : Json.readValue steps depth cursor with e | ⟨value, last⟩
  · rw [hread] at h hvalue
    rw [hvalue h]
  · rw [hread] at h hvalue
    rw [hvalue (by simp)]
    dsimp only at h ⊢
    split
    · rfl
    · rename_i s hs
      rw [hs] at h
      exact ih.items _ _ _ h
    · rfl

theorem roomIgnored (steps : Nat) : RoomIgnored steps := by
  induction steps with
  | zero =>
    constructor
    all_goals
      intros
      simp only [readValue, readFields, readItems]
  | succ steps ih =>
    exact ⟨fun _ _ => ih.readValue, fun _ _ _ => ih.readFields, fun _ _ _ => ih.readItems⟩

/-- More room makes no difference to a document that has enough. -/
theorem read_of_le {document : List Char} (h : read depth document ≠ .error .tooDeep)
    {larger : Nat} (hle : depth ≤ larger) : read larger document = read depth document := by
  induction hle with
  | refl => rfl
  | @step larger _ ih =>
    rw [← ih]
    rw [← ih] at h
    by_cases hmark : ∃ s, document = '\ufeff' :: s
    · obtain ⟨s, rfl⟩ := hmark
      rfl
    · have hunmarked : ∀ s, document ≠ '\ufeff' :: s := fun s hs => hmark ⟨s, hs⟩
      rw [read_unmarked hunmarked] at h ⊢
      rw [read_unmarked hunmarked, (roomIgnored _).values]
      intro hdeep
      rw [hdeep] at h
      exact h rfl

/-- A run of digits that is too long is no number. -/
theorem read_nines {n : Nat} (h : Text.maxNumeralDigits < n) :
    read depth (List.replicate n '9') = .error (.oversized n) := by
  obtain ⟨n, rfl⟩ : ∃ k, n = k + 1 := ⟨n - 1, by omega⟩
  have hrun : wholeDigits (List.replicate (n + 1) '9') = List.replicate (n + 1) '9' := by
    have htake : (List.replicate (n + 1) '9' ++ []).takeWhile Char.isDigit =
        List.replicate (n + 1) '9' := (takeWhile_of_ends (by simp) (by simp [Ends])).1
    rw [List.append_nil] at htake
    exact htake
  have hnumber : ∀ index, numberAt false ⟨List.replicate (n + 1) '9', index⟩ =
      some (.error (.oversized (n + 1))) := by
    intro index
    simp [numberAt, hrun, numberOf, Cursor.past, fractionDigits, fractionLength, exponent?, h]
  have hstart : Cursor.skipBlanks ⟨List.replicate (n + 1) '9', 0⟩ =
      ⟨List.replicate (n + 1) '9', 0⟩ := rfl
  rw [read_unmarked (by simp [List.replicate_succ]), hstart]
  have hvalue : ∀ steps, readValue (steps + 1) depth ⟨List.replicate (n + 1) '9', 0⟩ =
      .error (.oversized (n + 1)) := by
    intro steps
    have hnumber' := hnumber 0
    rw [List.replicate_succ] at hnumber' ⊢
    rw [readValue_plain (by decide), (readWord?_digit rfl _ _).1,
      readNumber?_unsigned (by decide), hnumber']
    rfl
  rw [hvalue]
  rfl

end Json

namespace Config

open Json (Value)

/-- The faults for which a document is refused: it is malformed, is no object, or its settings are
wrong. -/
inductive DocumentFault.Refusal : DocumentFault → Prop where
  | malformed (complaint : Json.Complaint) (line column : Nat) :
      Refusal (.malformed complaint line column)
  | notObject (kind : String) : Refusal (.notObject kind)
  | operatorsNotText (v : Value) : Refusal (.operatorsNotText v)
  | invalid {f : Settings.Fault} (h : f.Invalid) : Refusal (.invalid f)

/-- The faults at which reading breaks off, each with what is then found in the document: a run of
digits that is too long, or more brackets and braces than lists and objects may be nested. -/
inductive DocumentFault.Escaping (depth : Nat) (document : List Char) : DocumentFault → Prop where
  | oversized {n : Nat} (h : Json.HasLongRun n document) : Escaping depth document (.oversized n)
  | tooDeep (h : depth < document.countP Json.isOpening) : Escaping depth document .tooDeep

/-- A document describes a configuration, is refused, or has one of the two faults at which reading
breaks off, of which each has its cause in the document. Where the limit on nesting is not what is
wrong, a larger one changes nothing. -/
theorem readDocument_contained (depth : Nat) (document : List Char) :
    ((∃ config, (readDocument depth document).2 = .ok config) ∨
      ∃ fault, (readDocument depth document).2 = .error fault ∧
        (fault.Refusal ∨ fault.Escaping depth document)) ∧
    ∀ larger, depth ≤ larger → (readDocument depth document).2 ≠ .error .tooDeep →
      readDocument larger document = readDocument depth document := by
  constructor
  · rcases hresult : (readDocument depth document).2 with fault | config
    · refine .inr ⟨fault, rfl, ?_⟩
      rw [readDocument] at hresult
      split at hresult
      · obtain rfl := Except.error.inj hresult
        exact .inl (.malformed ..)
      · rename_i hread
        obtain rfl := Except.error.inj hresult
        exact .inr (.oversized (Json.read_error hread))
      · rename_i hread
        obtain rfl := Except.error.inj hresult
        exact .inr (.tooDeep (Json.read_error hread))
      · rename_i hread
        rcases ofFields_error (Json.read_apart hread) hresult with ⟨v, rfl⟩ | ⟨f, rfl, hf⟩
        · exact .inl (.operatorsNotText v)
        · exact .inl (.invalid hf)
      · obtain rfl := Except.error.inj hresult
        exact .inl (.notObject _)
    · exact .inl ⟨config, rfl⟩
  · intro larger hle hne
    have hread : Json.read depth document ≠ .error .tooDeep := by
      intro hdeep
      rw [readDocument_of_tooDeep hdeep] at hne
      exact hne rfl
    simp only [readDocument, Json.read_of_le hread hle]

/-- A list that needs room for two is refused, with any more room as well. -/
theorem readDocument_contained_list :
    (readDocument 2 "[[1]]".toList).2 = .error (.notObject "list") ∧
    (readDocument documentLimit "[[1]]".toList).2 = .error (.notObject "list") ∧
    (DocumentFault.notObject "list").Refusal := by
  have hlist : (readDocument 2 "[[1]]".toList).2 = .error (.notObject "list") := rfl
  obtain ⟨hcontained, hroom⟩ := readDocument_contained 2 "[[1]]".toList
  refine ⟨hlist, ?_, ?_⟩
  · rw [hroom documentLimit (by decide) (by rw [hlist]; simp), hlist]
  · rcases hcontained with ⟨config, hconfig⟩ | ⟨fault, hfault, hrefusal | hescaping⟩
    · rw [hlist] at hconfig
      cases hconfig
    · rw [hlist] at hfault
      obtain rfl := Except.error.inj hfault
      exact hrefusal
    · rw [hlist] at hfault
      obtain rfl := Except.error.inj hfault
      cases hescaping

/-- A document of nothing but digits and one of nothing but brackets are neither read nor
refused. -/
theorem readDocument_escapes :
    (readDocument documentLimit (List.replicate 4301 '9')).2 = .error (.oversized 4301) ∧
    (readDocument documentLimit (List.replicate 20000 '[')).2 = .error .tooDeep ∧
    ¬ ∀ document, (∃ config, (readDocument documentLimit document).2 = .ok config) ∨
      ∃ fault, (readDocument documentLimit document).2 = .error fault ∧ fault.Refusal := by
  have hnines : readDocument documentLimit (List.replicate 4301 '9') =
      ([], .error (.oversized 4301)) := by
    have hread : Json.read documentLimit (List.replicate 4301 '9') = .error (.oversized 4301) :=
      Json.read_nines (by decide)
    simp only [readDocument, hread]
  have hbrackets : readDocument documentLimit (List.replicate 20000 '[') = ([], .error .tooDeep) :=
    readDocument_of_tooDeep (Json.read_brackets (by decide))
  refine ⟨by rw [hnines], by rw [hbrackets], fun hall => ?_⟩
  rcases hall (List.replicate 20000 '[') with ⟨config, hconfig⟩ | ⟨fault, hfault, hrefusal⟩
  · rw [hbrackets] at hconfig
    cases hconfig
  · rw [hbrackets] at hfault
    obtain rfl := Except.error.inj hfault
    cases hrefusal

end Config

end Unroll
