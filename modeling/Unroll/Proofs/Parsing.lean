import Unroll.Json.Reader

/-!
# One step of the readers of documents

When a reader of one of the parts of a document succeeds, the readers of its own parts have
succeeded one step earlier, and when it fails, one of them has failed, or the characters left are
malformed. Each of the lemmas below says for one reader what that can have been, so that a proof
about all documents has one case for each way of reading on.

* `Value.Plain` — the values that have no parts, which are those of words and numbers;
* `ValueStep`, `readValue_ok` — how a value was read;
* `readName_ok`, `readFields_ok`, `readItems_ok` — how the parts of lists and objects were;
* `ValueFailure`, `readValue_error` — how a value was not read;
* `readFields_error`, `readItems_error` — how the parts of lists and objects were not;
* `readValue_of_read`, `readValue_of_read_error` — how a document was read, or was not.
-/

namespace Unroll.Json

variable {steps depth : Nat} {document : List Char} {cursor after : Cursor} {e : Failure}

/-! ### Words and numbers -/

theorem readWord?_ok {v : Value} (h : readWord? cursor = some (v, after)) :
    ∃ word ∈ words, word.2 = v ∧ cursor.rest = word.1.toList ++ after.rest := by
  obtain ⟨word, hfind, hafter⟩ := Option.map_eq_some_iff.1 h
  obtain ⟨rfl, rfl⟩ := Prod.mk.inj hafter
  have hprefix : word.1.toList.isPrefixOf cursor.rest = true := by
    simpa using List.find?_some hfind
  obtain ⟨x, hx⟩ := List.isPrefixOf_iff_prefix.1 hprefix
  refine ⟨word, List.mem_of_find?_eq_some hfind, rfl, ?_⟩
  simp only [Cursor.past, ← hx, ← String.length_toList, List.drop_left]

/-- Neither a text, nor a list, nor an object. -/
def Value.Plain : Value → Prop
  | .text _ | .list _ | .object _ => False
  | _ => True

theorem readWord?_plain {v : Value}
    (h : readWord? cursor = some (v, after)) : v.Plain := by
  have hwords : ∀ word ∈ words, word.2.Plain := by simp [words, Value.Plain]
  obtain ⟨word, hword, rfl, -⟩ := readWord?_ok h
  exact hwords word hword

theorem readNumber?_plain {v : Value}
    (h : readNumber? cursor = some (.ok (v, after))) : v.Plain := by
  rw [readNumber?] at h
  split at h
  extract_lets at h
  split at h
  · cases h
  split at h
  · split at h
    · cases Option.some.inj h
    · obtain ⟨rfl, -⟩ := Prod.mk.inj (Except.ok.inj (Option.some.inj h))
      trivial
  · obtain ⟨rfl, -⟩ := Prod.mk.inj (Except.ok.inj (Option.some.inj h))
    trivial

/-! ### Values -/

/-- How a value is found at the front of what is left: which parts are read, one step earlier. -/
inductive ValueStep (steps : Nat) (cursor after : Cursor) : Nat → Value → Prop where
  | text {depth : Nat} {t : CodeText} {s : List Char} (hs : cursor.rest = '\x22' :: s)
      (h : readText cursor.index steps [] (cursor.index + 1) s = .ok (t, after)) :
      ValueStep steps cursor after depth (.text t)
  | noFields {depth : Nat} {s : List Char} (hs : cursor.rest = '\x7b' :: s)
      (hinside : (cursor.past 1 s).skipBlanks.rest = '\x7d' :: after.rest) :
      ValueStep steps cursor after (depth + 1) (.object [])
  | fields {depth : Nat} {v : Value} {s : List Char} (hs : cursor.rest = '\x7b' :: s)
      (h : readFields steps depth [] (cursor.past 1 s).skipBlanks = .ok (v, after)) :
      ValueStep steps cursor after (depth + 1) v
  | noItems {depth : Nat} {s : List Char} (hs : cursor.rest = '[' :: s)
      (hinside : (cursor.past 1 s).skipBlanks.rest = ']' :: after.rest) :
      ValueStep steps cursor after (depth + 1) (.list [])
  | items {depth : Nat} {v : Value} {s : List Char} (hs : cursor.rest = '[' :: s)
      (h : readItems steps depth [] (cursor.past 1 s).skipBlanks = .ok (v, after)) :
      ValueStep steps cursor after (depth + 1) v
  | word {depth : Nat} {v : Value} (h : readWord? cursor = some (v, after)) :
      ValueStep steps cursor after depth v
  | number {depth : Nat} {v : Value} (h : readNumber? cursor = some (.ok (v, after))) :
      ValueStep steps cursor after depth v

theorem readValue_ok {v : Value}
    (h : readValue (steps + 1) depth cursor = .ok (v, after)) :
    ValueStep steps cursor after depth v := by
  rw [readValue] at h
  split at h
  · rename_i s hs
    rcases htext : readText cursor.index steps [] (cursor.index + 1) s with e | ⟨t, last⟩
    · rw [htext] at h
      cases h
    · rw [htext] at h
      obtain ⟨rfl, rfl⟩ := Prod.mk.inj (Except.ok.inj h)
      exact .text hs htext
  · rename_i s hs
    split at h
    · cases h
    · dsimp only at h
      split at h
      · rename_i hinside
        obtain ⟨rfl, rfl⟩ := Prod.mk.inj (Except.ok.inj h)
        exact .noFields hs hinside
      · exact .fields hs h
  · rename_i s hs
    split at h
    · cases h
    · dsimp only at h
      split at h
      · rename_i hinside
        obtain ⟨rfl, rfl⟩ := Prod.mk.inj (Except.ok.inj h)
        exact .noItems hs hinside
      · exact .items hs h
  · split at h
    · rename_i hword
      obtain rfl := Except.ok.inj h
      exact .word hword
    · rcases hnumber : readNumber? cursor with _ | result
      · rw [hnumber] at h
        cases h
      · rw [hnumber, Option.getD_some] at h
        rw [h] at hnumber
        exact .number hnumber

/-! ### Fields and items -/

/-- A text is read, and behind it there is a colon. -/
theorem readName_ok {name : CodeText} (h : readName steps cursor = .ok (name, after)) :
    ∃ s last behind, cursor.rest = '\x22' :: s ∧
      readText cursor.index steps [] (cursor.index + 1) s = .ok (name, last) ∧
      last.skipBlanks.rest = ':' :: behind ∧
      after = (last.skipBlanks.past 1 behind).skipBlanks := by
  rw [readName] at h
  split at h
  · rename_i s hs
    rcases htext : readText cursor.index steps [] (cursor.index + 1) s with e | ⟨t, last⟩
    · rw [htext] at h
      cases h
    · rw [htext] at h
      simp only [bind, Except.bind] at h
      split at h
      · rename_i behind hcolon
        obtain ⟨rfl, rfl⟩ := Prod.mk.inj (Except.ok.inj h)
        exact ⟨s, last, behind, hs, htext, hcolon, rfl⟩
      · cases h
  · cases h

/-- The first field is read, and either the object is closed behind it or there are more. -/
theorem readFields_ok {fields : List (CodeText × Value)} {v : Value}
    (h : readFields (steps + 1) depth fields cursor = .ok (v, after)) :
    ∃ name inside value last, readName steps cursor = .ok (name, inside) ∧
      readValue steps depth inside = .ok (value, last) ∧
      (last.skipBlanks.rest = '\x7d' :: after.rest ∧ v = .object (setField name value fields) ∨
        ∃ s, last.skipBlanks.rest = ',' :: s ∧
          readFields steps depth (setField name value fields)
            (last.skipBlanks.past 1 s).skipBlanks = .ok (v, after)) := by
  rw [readFields] at h
  split at h
  · cases h
  · rename_i name inside hname
    split at h
    · cases h
    · rename_i value last hvalue
      refine ⟨name, inside, value, last, hname, hvalue, ?_⟩
      dsimp only at h
      split at h
      · rename_i hclose
        obtain ⟨rfl, rfl⟩ := Prod.mk.inj (Except.ok.inj h)
        exact .inl ⟨hclose, rfl⟩
      · rename_i s hcomma
        exact .inr ⟨s, hcomma, h⟩
      · cases h

/-- The first item is read, and either the list is closed behind it or there are more. -/
theorem readItems_ok {items : List Value} {v : Value}
    (h : readItems (steps + 1) depth items cursor = .ok (v, after)) :
    ∃ value last, readValue steps depth cursor = .ok (value, last) ∧
      (last.skipBlanks.rest = ']' :: after.rest ∧ v = .list (value :: items).reverse ∨
        ∃ s, last.skipBlanks.rest = ',' :: s ∧
          readItems steps depth (value :: items) (last.skipBlanks.past 1 s).skipBlanks =
            .ok (v, after)) := by
  rw [readItems] at h
  split at h
  · cases h
  · rename_i value last hvalue
    refine ⟨value, last, hvalue, ?_⟩
    dsimp only at h
    split at h
    · rename_i hclose
      obtain ⟨rfl, rfl⟩ := Prod.mk.inj (Except.ok.inj h)
      exact .inl ⟨hclose, rfl⟩
    · rename_i s hcomma
      exact .inr ⟨s, hcomma, h⟩
    · cases h

theorem readFields_object {fields : List (CodeText × Value)} {v : Value}
    (h : readFields steps depth fields cursor = .ok (v, after)) : ∃ fields, v = .object fields := by
  induction steps generalizing fields cursor with
  | zero =>
    rw [readFields] at h
    cases h
  | succ steps ih =>
    obtain ⟨name, inside, value, last, -, -, hend⟩ := readFields_ok h
    rcases hend with ⟨-, rfl⟩ | ⟨s, -, hrest⟩
    · exact ⟨_, rfl⟩
    · exact ih hrest

theorem readItems_list {items : List Value} {v : Value}
    (h : readItems steps depth items cursor = .ok (v, after)) : ∃ items, v = .list items := by
  induction steps generalizing items cursor with
  | zero =>
    rw [readItems] at h
    cases h
  | succ steps ih =>
    obtain ⟨value, last, -, hend⟩ := readItems_ok h
    rcases hend with ⟨-, rfl⟩ | ⟨s, -, hrest⟩
    · exact ⟨_, rfl⟩
    · exact ih hrest

/-! ### Failures -/

/-- Whether a failure is a complaint about malformed characters. -/
def Failure.IsMalformed : Failure → Prop
  | .malformed _ _ => True
  | _ => False

theorem readText_error {opening index : Nat} {done : CodeText} {s : List Char}
    (h : readText opening steps done index s = .error e) : e.IsMalformed := by
  fun_induction readText opening steps done index s
  all_goals first
    | exact (Except.error.inj h) ▸ trivial
    | (rename_i ih; exact ih h)
    | cases h

theorem readName_error (h : readName steps cursor = .error e) : e.IsMalformed := by
  rw [readName] at h
  split at h
  · rename_i s _
    rcases htext : readText cursor.index steps [] (cursor.index + 1) s with e' | ⟨t, last⟩
    · rw [htext] at h
      obtain rfl := Except.error.inj h
      exact readText_error htext
    · rw [htext] at h
      simp only [bind, Except.bind] at h
      split at h
      · cases h
      · obtain rfl := Except.error.inj h
        trivial
  · obtain rfl := Except.error.inj h
    trivial

/-- Whether a list or an object begins. -/
def isOpening (c : Char) : Bool := c = '[' || c = '\x7b'

/-- How the reading of a value fails. -/
inductive ValueFailure (steps : Nat) (cursor : Cursor) (e : Failure) : Nat → Prop where
  | malformed {depth : Nat} (h : e.IsMalformed) : ValueFailure steps cursor e depth
  | tooDeep {c : Char} {s : List Char} (hs : cursor.rest = c :: s) (hc : isOpening c = true)
      (h : e = .tooDeep) : ValueFailure steps cursor e 0
  | fields {depth : Nat} {s : List Char} (hs : cursor.rest = '\x7b' :: s)
      (h : readFields steps depth [] (cursor.past 1 s).skipBlanks = .error e) :
      ValueFailure steps cursor e (depth + 1)
  | items {depth : Nat} {s : List Char} (hs : cursor.rest = '[' :: s)
      (h : readItems steps depth [] (cursor.past 1 s).skipBlanks = .error e) :
      ValueFailure steps cursor e (depth + 1)
  | number {depth : Nat} (h : readNumber? cursor = some (.error e)) :
      ValueFailure steps cursor e depth

theorem readValue_error (h : readValue (steps + 1) depth cursor = .error e) :
    ValueFailure steps cursor e depth := by
  rw [readValue] at h
  split at h
  · rename_i s hs
    rcases htext : readText cursor.index steps [] (cursor.index + 1) s with e' | ⟨t, last⟩
    · rw [htext] at h
      obtain rfl := Except.error.inj h
      exact .malformed (readText_error htext)
    · rw [htext] at h
      cases h
  · rename_i s hs
    split at h
    · exact .tooDeep hs rfl (Except.error.inj h).symm
    · dsimp only at h
      split at h
      · cases h
      · exact .fields hs h
  · rename_i s hs
    split at h
    · exact .tooDeep hs rfl (Except.error.inj h).symm
    · dsimp only at h
      split at h
      · cases h
      · exact .items hs h
  · split at h
    · cases h
    · rcases hnumber : readNumber? cursor with _ | result
      · rw [hnumber] at h
        obtain rfl := Except.error.inj h
        exact .malformed trivial
      · rw [hnumber, Option.getD_some] at h
        rw [h] at hnumber
        exact .number hnumber

/-- The name, the value, or what stands behind a comma is not read. -/
theorem readFields_error {fields : List (CodeText × Value)}
    (h : readFields (steps + 1) depth fields cursor = .error e) :
    e.IsMalformed ∨ ∃ name inside, readName steps cursor = .ok (name, inside) ∧
      (readValue steps depth inside = .error e ∨
        ∃ value last s, readValue steps depth inside = .ok (value, last) ∧
          last.skipBlanks.rest = ',' :: s ∧
          readFields steps depth (setField name value fields)
            (last.skipBlanks.past 1 s).skipBlanks = .error e) := by
  rw [readFields] at h
  split at h
  · rename_i hname
    obtain rfl := Except.error.inj h
    exact .inl (readName_error hname)
  · rename_i name inside hname
    split at h
    · rename_i hvalue
      obtain rfl := Except.error.inj h
      exact .inr ⟨name, inside, hname, .inl hvalue⟩
    · rename_i value last hvalue
      dsimp only at h
      split at h
      · cases h
      · rename_i s hcomma
        exact .inr ⟨name, inside, hname, .inr ⟨value, last, s, hvalue, hcomma, h⟩⟩
      · obtain rfl := Except.error.inj h
        exact .inl trivial

/-- The item, or what stands behind a comma, is not read. -/
theorem readItems_error {items : List Value}
    (h : readItems (steps + 1) depth items cursor = .error e) :
    e.IsMalformed ∨ readValue steps depth cursor = .error e ∨
      ∃ value last s, readValue steps depth cursor = .ok (value, last) ∧
        last.skipBlanks.rest = ',' :: s ∧
        readItems steps depth (value :: items) (last.skipBlanks.past 1 s).skipBlanks =
          .error e := by
  rw [readItems] at h
  split at h
  · rename_i hvalue
    obtain rfl := Except.error.inj h
    exact .inr (.inl hvalue)
  · rename_i value last hvalue
    dsimp only at h
    split at h
    · cases h
    · rename_i s hcomma
      exact .inr (.inr ⟨value, last, s, hvalue, hcomma, h⟩)
    · obtain rfl := Except.error.inj h
      exact .inl trivial

/-! ### Lists and objects by their room -/

theorem readValue_brace {s : List Char} (hs : cursor.rest = '\x7b' :: s) :
    readValue (steps + 1) (depth + 1) cursor =
      match (cursor.past 1 s).skipBlanks.rest with
      | '\x7d' :: rest => .ok (.object [], (cursor.past 1 s).skipBlanks.past 1 rest)
      | _ => readFields steps depth [] (cursor.past 1 s).skipBlanks := by
  rw [readValue, hs]
  rfl

theorem readValue_bracket {s : List Char} (hs : cursor.rest = '[' :: s) :
    readValue (steps + 1) (depth + 1) cursor =
      match (cursor.past 1 s).skipBlanks.rest with
      | ']' :: rest => .ok (.list [], (cursor.past 1 s).skipBlanks.past 1 rest)
      | _ => readItems steps depth [] (cursor.past 1 s).skipBlanks := by
  rw [readValue, hs]
  rfl

theorem readValue_zero {c : Char} {s : List Char} (hs : cursor.rest = c :: s)
    (hc : isOpening c = true) : readValue (steps + 1) 0 cursor = .error .tooDeep := by
  simp only [isOpening, Bool.or_eq_true, decide_eq_true_eq] at hc
  rcases hc with rfl | rfl
  all_goals
    rw [readValue, hs]
    rfl

/-! ### Documents -/

theorem read_unmarked (h : ∀ s, document ≠ '\ufeff' :: s) :
    read depth document = (do
      let (v, after) ← readValue (2 * document.length + 2) depth (Cursor.skipBlanks ⟨document, 0⟩)
      let after := after.skipBlanks
      if after.rest.isEmpty then return v
      else throw (.malformed .extraData after.index)) := by
  unfold read
  split
  · exact absurd rfl (h _)
  · rfl

/-- A document is read if a value with nothing but blanks behind it is. -/
theorem readValue_of_read {v : Value} (h : read depth document = .ok v) :
    ∃ last, readValue (2 * document.length + 2) depth (Cursor.skipBlanks ⟨document, 0⟩) =
      .ok (v, last) ∧ last.skipBlanks.rest = [] := by
  by_cases hmark : ∃ s, document = '\ufeff' :: s
  · obtain ⟨s, rfl⟩ := hmark
    cases h
  · rw [read_unmarked fun s hs => hmark ⟨s, hs⟩] at h
    rcases hvalue : readValue (2 * document.length + 2) depth
        (Cursor.skipBlanks ⟨document, 0⟩) with e | ⟨v', last⟩
    · rw [hvalue] at h
      cases h
    · rw [hvalue] at h
      change (if last.skipBlanks.rest.isEmpty then Except.ok v' else _) = _ at h
      split at h
      · rename_i hempty
        obtain rfl := Except.ok.inj h
        exact ⟨last, rfl, List.isEmpty_iff.1 hempty⟩
      · cases h

/-- A document is not read if it is malformed or no value is. -/
theorem readValue_of_read_error (h : read depth document = .error e) :
    e.IsMalformed ∨ readValue (2 * document.length + 2) depth (Cursor.skipBlanks ⟨document, 0⟩) =
      .error e := by
  by_cases hmark : ∃ s, document = '\ufeff' :: s
  · obtain ⟨s, rfl⟩ := hmark
    obtain rfl := Except.error.inj h
    exact .inl trivial
  · rw [read_unmarked fun s hs => hmark ⟨s, hs⟩] at h
    rcases hvalue : readValue (2 * document.length + 2) depth
        (Cursor.skipBlanks ⟨document, 0⟩) with e' | ⟨v, last⟩
    · rw [hvalue] at h
      obtain rfl := Except.error.inj h
      exact .inr rfl
    · rw [hvalue] at h
      change (if last.skipBlanks.rest.isEmpty then Except.ok v else _) = _ at h
      split at h
      · cases h
      · obtain rfl := Except.error.inj h
        exact .inl trivial

end Unroll.Json
