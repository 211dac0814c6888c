import Unroll.Proofs.Prefixes

/-!
# Documents are read by their parts

What a value is read as depends on the characters that it takes, wherever they stand, as long as
nothing follows that goes on a number. So documents can be taken apart into the parts that their
values are read from, and what is put together from parts that can be read can be read.

* `ReadsValue`, `ReadsField`, `ReadsFields` — what characters are read as, whatever is around them;
* `valuesLocal` — every value that is read is read from its own characters;
* `readValue_text`, `readValue_object` — the parts of texts and objects;
* `read_ok`, `read_of_readsValue` — a document is a value with blanks around.
-/

namespace Unroll.Json

variable {steps depth index : Nat} {rest : List Char}

/-! ### Values -/

/-- Characters that begin neither with a blank, nor with a closing bracket or a byte order mark. -/
def Opens (front : List Char) : Prop :=
  ∃ c tail, front = c :: tail ∧ Cursor.isBlank c = false ∧ c ≠ ']' ∧ c ≠ '\ufeff'

theorem Opens.append {front : List Char} (h : Opens front) (s : List Char) :
    Opens (front ++ s) := by
  obtain ⟨c, tail, rfl, hc⟩ := h
  exact ⟨c, tail ++ s, rfl, hc⟩

theorem Opens.ends {front : List Char} (h : Opens front) (rest : List Char) :
    Ends Cursor.isBlank (front ++ rest) := by
  obtain ⟨c, tail, rfl, hc, -⟩ := h
  exact .cons hc _

/-- What a value is read as when `front` is taken, if nothing that may go on a number follows. -/
def ReadsValue (depth : Nat) (v : Value) (front : List Char) : Prop :=
  ∀ rest steps index, Ends isNumeric rest → 2 * front.length ≤ steps →
    ∃ last, readValue steps depth ⟨front ++ rest, index⟩ = .ok (v, ⟨rest, last⟩)

theorem readValue_plain {c : Char} {s : List Char}
    (hc : c ≠ '\x22' ∧ c ≠ '\x7b' ∧ c ≠ '[') :
    readValue (steps + 1) depth ⟨c :: s, index⟩ =
      match readWord? ⟨c :: s, index⟩ with
      | some result => .ok result
      | none => (readNumber? ⟨c :: s, index⟩).getD (.error (.malformed .expectedValue index)) := by
  obtain ⟨hquote, hbrace, hbracket⟩ := hc
  rw [readValue]
  split
  · rename_i heq
    exact absurd (List.cons.inj heq).1 hquote
  · rename_i heq
    exact absurd (List.cons.inj heq).1 hbrace
  · rename_i heq
    exact absurd (List.cons.inj heq).1 hbracket
  · rfl

theorem readsValue_word {word : String × Value} (h : word ∈ words) :
    Opens word.1.toList ∧ ReadsValue depth word.2 word.1.toList := by
  have hhead : ∃ c tail, word.1.toList = c :: tail ∧ (Cursor.isBlank c = false ∧ c ≠ ']' ∧
      c ≠ '\ufeff') ∧ c ≠ '\x22' ∧ c ≠ '\x7b' ∧ c ≠ '[' := by
    simp only [words, List.mem_cons, List.not_mem_nil, or_false] at h
    rcases h with rfl | rfl | rfl | rfl | rfl | rfl <;>
      exact ⟨_, _, rfl, by decide, by decide, by decide, by decide⟩
  obtain ⟨c, tail, hcons, hopens, hplain⟩ := hhead
  refine ⟨⟨c, tail, hcons, hopens⟩, fun rest steps index _ hsteps => ?_⟩
  obtain ⟨last, hlast⟩ := readWord?_of_mem h rest index
  rw [hcons] at hsteps hlast ⊢
  rw [List.length_cons] at hsteps
  obtain ⟨steps, rfl⟩ : ∃ k, steps = k + 1 := ⟨steps - 1, by omega⟩
  refine ⟨last, ?_⟩
  rw [List.cons_append] at hlast ⊢
  rw [readValue_plain hplain, hlast]

/-- Numbers do not begin as words do. -/
theorem readWord?_digit {d : Char} (hd : d.isDigit = true) (s : List Char) (index : Nat) :
    readWord? ⟨d :: s, index⟩ = none ∧ readWord? ⟨'-' :: d :: s, index⟩ = none := by
  have hne : ∀ c : Char, c.isDigit = false → c ≠ d := fun c hc => (ne_of_isDigit hd hc).symm
  simp [readWord?, words, hne]

theorem readsValue_number {cursor after : Cursor} {v : Value}
    (h : readNumber? cursor = some (.ok (v, after))) :
    ∃ front, cursor.rest = front ++ after.rest ∧ Opens front ∧ ReadsValue depth v front := by
  obtain ⟨front, hsplit, hfront, hread⟩ := readNumber?_local h
  refine ⟨front, hsplit, ?_⟩
  have hhead : ∃ c tail, front = c :: tail ∧ (Cursor.isBlank c = false ∧ c ≠ ']' ∧
      c ≠ '\ufeff') ∧ (c ≠ '\x22' ∧ c ≠ '\x7b' ∧ c ≠ '[') ∧
      ∀ rest index, readWord? ⟨c :: (tail ++ rest), index⟩ = none := by
    rcases hfront with ⟨d, tail, hd, rfl⟩ | ⟨d, tail, hd, rfl⟩
    · have hne : ∀ c : Char, c.isDigit = false → d ≠ c := fun c => ne_of_isDigit hd
      refine ⟨d, tail, rfl, ⟨?_, hne _ rfl, hne _ rfl⟩, ⟨hne _ rfl, hne _ rfl, hne _ rfl⟩,
        fun _ _ => (readWord?_digit hd _ _).1⟩
      simp [Cursor.isBlank, hne]
    · exact ⟨'-', d :: tail, rfl, by decide, by decide, fun _ _ => (readWord?_digit hd _ _).2⟩
  obtain ⟨c, tail, rfl, hopens, hplain, hword⟩ := hhead
  refine ⟨⟨c, tail, rfl, hopens⟩, fun rest steps index hrest hsteps => ?_⟩
  rw [List.length_cons] at hsteps
  obtain ⟨steps, rfl⟩ : ∃ k, steps = k + 1 := ⟨steps - 1, by omega⟩
  obtain ⟨last, hlast⟩ := hread rest index hrest
  refine ⟨last, ?_⟩
  rw [List.cons_append] at hlast ⊢
  rw [readValue_plain hplain, hword, hlast]
  rfl

theorem isNumeric_of_isBlank {c : Char} (h : Cursor.isBlank c = true) : isNumeric c = false := by
  simp only [Cursor.isBlank, Bool.or_eq_true, decide_eq_true_eq] at h
  rcases h with ((rfl | rfl) | rfl) | rfl <;> rfl

/-- Blanks keep what follows from going on a number. -/
theorem AllBlank.ends_isNumeric {gap : List Char} (h : AllBlank gap) (hrest : Ends isNumeric rest) :
    Ends isNumeric (gap ++ rest) := by
  apply Ends.append _ hrest
  intro c hc
  exact isNumeric_of_isBlank (h c (List.mem_of_mem_head? hc))

/-- A value with blanks behind it is read, and the blanks are skipped. -/
theorem ReadsValue.then_blanks {v : Value} {front gap : List Char} (h : ReadsValue depth v front)
    (hgap : AllBlank gap) (hblank : Ends Cursor.isBlank rest) (hrest : Ends isNumeric rest)
    (hsteps : 2 * front.length ≤ steps) (index : Nat) :
    ∃ inside last, readValue steps depth ⟨front ++ (gap ++ rest), index⟩ = .ok (v, inside) ∧
      inside.skipBlanks = ⟨rest, last⟩ := by
  obtain ⟨i₁, h₁⟩ := h (gap ++ rest) steps index (hgap.ends_isNumeric hrest) hsteps
  obtain ⟨i₂, h₂⟩ := skipBlanks_append hgap hblank i₁
  exact ⟨_, i₂, h₁, h₂⟩

/-! ### Fields -/

/-- Characters from which a field is read, with the blanks behind it. -/
inductive ReadsField (depth : Nat) : CodeText × Value → List Char → Prop where
  | colon {name : CodeText} {v : Value} {t before behind front last : List Char}
      (hname : ReadsText [] name t) (hbefore : AllBlank before) (hbehind : AllBlank behind)
      (hopens : Opens front) (hv : ReadsValue depth v front) (hlast : AllBlank last) :
      ReadsField depth (name, v) ('\x22' :: (t ++ (before ++ ':' :: (behind ++ (front ++ last)))))

/-- Characters from which the fields of an object are read, with the closing brace. -/
inductive ReadsFields (depth : Nat) : List (CodeText × Value) → List Char → Prop where
  | last {field : CodeText × Value} {s : List Char} (h : ReadsField depth field s) :
      ReadsFields depth [field] (s ++ ['\x7d'])
  | more {field : CodeText × Value} {fields : List (CodeText × Value)} {s gap t : List Char}
      (h : ReadsField depth field s) (hgap : AllBlank gap) (hrest : ReadsFields depth fields t) :
      ReadsFields depth (field :: fields) (s ++ ',' :: (gap ++ t))

/-- The fields of an object when further ones have been read. -/
def setFields (fields entries : List (CodeText × Value)) : List (CodeText × Value) :=
  entries.foldl (fun fields entry => setField entry.1 entry.2 fields) fields

/-- The readers of names and values find the field that is taken. -/
theorem ReadsField.read {field : CodeText × Value} {s : List Char} (h : ReadsField depth field s)
    (hblank : Ends Cursor.isBlank rest) (hrest : Ends isNumeric rest)
    (hsteps : 2 * s.length ≤ steps) (index : Nat) :
    ∃ inside last after, readName steps ⟨s ++ rest, index⟩ = .ok (field.1, inside) ∧
      readValue steps depth inside = .ok (field.2, last) ∧ last.skipBlanks = ⟨rest, after⟩ := by
  cases h with
  | @colon name v t before behind front last hname hbefore hbehind hopens hv hlast =>
    simp only [List.length_cons, List.length_append] at hsteps
    obtain ⟨i₁, h₁⟩ := hname (before ++ ':' :: (behind ++ (front ++ (last ++ rest)))) steps index
      (index + 1) (by omega)
    obtain ⟨i₂, h₂⟩ := skipBlanks_append hbefore
      (Ends.cons (rfl : Cursor.isBlank ':' = false) (behind ++ (front ++ (last ++ rest)))) i₁
    obtain ⟨i₃, h₃⟩ := skipBlanks_append hbehind (hopens.ends (last ++ rest)) (i₂ + 1)
    obtain ⟨finish, i₄, h₄, h₅⟩ :=
      hv.then_blanks hlast hblank hrest (by omega : 2 * front.length ≤ steps) i₃
    refine ⟨_, finish, i₄, ?_, h₄, h₅⟩
    simp only [readName, List.cons_append, List.append_assoc, h₁, bind, Except.bind, h₂,
      Cursor.past, h₃]
    rfl

theorem ReadsField.head? {field : CodeText × Value} {s : List Char} (h : ReadsField depth field s) :
    ∃ tail, s = '\x22' :: tail := by
  cases h
  exact ⟨_, rfl⟩

theorem ReadsFields.head? {fields : List (CodeText × Value)} {s : List Char}
    (h : ReadsFields depth fields s) : ∃ tail, s = '\x22' :: tail := by
  cases h with
  | last h | more h =>
    obtain ⟨tail, rfl⟩ := h.head?
    exact ⟨_, rfl⟩

/-- The reader of fields finds the fields that are taken. -/
theorem ReadsFields.read {entries : List (CodeText × Value)} {front : List Char}
    (h : ReadsFields depth entries front) (hsteps : 2 * front.length ≤ steps)
    (fields : List (CodeText × Value)) (rest : List Char) (index : Nat) :
    ∃ last, readFields steps depth fields ⟨front ++ rest, index⟩ =
      .ok (.object (setFields fields entries), ⟨rest, last⟩) := by
  induction h generalizing steps fields index with
  | @last field s h =>
    rw [List.length_append, List.length_singleton] at hsteps
    obtain ⟨steps, rfl⟩ : ∃ k, steps = k + 1 := ⟨steps - 1, by omega⟩
    obtain ⟨inside, last, after, hname, hvalue, hafter⟩ :=
      h.read (.cons (rfl : Cursor.isBlank '\x7d' = false) rest)
        (.cons (rfl : isNumeric '\x7d' = false) rest) (by omega : _ ≤ steps) index
    refine ⟨after + 1, ?_⟩
    simp only [List.append_assoc, List.singleton_append, readFields, hname, hvalue, hafter]
    rfl
  | @more field entries s gap t h hgap hrest ih =>
    simp only [List.length_append, List.length_cons] at hsteps
    obtain ⟨steps, rfl⟩ : ∃ k, steps = k + 1 := ⟨steps - 1, by omega⟩
    obtain ⟨inside, last, comma, hname, hvalue, hcomma⟩ :=
      h.read (.cons (rfl : Cursor.isBlank ',' = false) (gap ++ (t ++ rest)))
        (.cons (rfl : isNumeric ',' = false) (gap ++ (t ++ rest))) (by omega : _ ≤ steps) index
    have hends : Ends Cursor.isBlank (t ++ rest) := by
      obtain ⟨tail, rfl⟩ := hrest.head?
      exact .cons (by decide) _
    obtain ⟨next, hnext⟩ := skipBlanks_append hgap hends (comma + 1)
    obtain ⟨after, hafter⟩ := ih (by omega : 2 * t.length ≤ steps)
      (setField field.1 field.2 fields) next
    refine ⟨after, ?_⟩
    simp only [List.append_assoc, List.cons_append, readFields, hname, hvalue, hcomma,
      Cursor.past, hnext, hafter]
    rfl


/-- A name is read from a text, a colon, and the blanks around. -/
theorem readName_local {cursor after : Cursor} {name : CodeText}
    (h : readName steps cursor = .ok (name, after)) :
    ∃ t before behind, cursor.rest = '\x22' :: (t ++ (before ++ ':' :: (behind ++ after.rest))) ∧
      ReadsText [] name t ∧ AllBlank before ∧ AllBlank behind := by
  obtain ⟨s, last, x, hs, htext, hcolon, rfl⟩ := readName_ok h
  obtain ⟨front, hsplit, -, hread⟩ := readText_local htext
  obtain ⟨before, hbefore, hlast⟩ := skipBlanks_split last
  obtain ⟨behind, hbehind, hinside⟩ := skipBlanks_behind last.skipBlanks 1 x
  refine ⟨front, before, behind, ?_, hread, hbefore, hbehind⟩
  rw [hs, hsplit, hlast, hcolon, ← hinside]

/-- What the items of a list are read as, with the items before them, when `front` is taken. -/
def ReadsItems (depth : Nat) (items : List Value) (v : Value) (front : List Char) : Prop :=
  ∀ rest steps index, 2 * front.length ≤ steps →
    ∃ last, readItems steps depth items ⟨front ++ rest, index⟩ = .ok (v, ⟨rest, last⟩)

/-! ### Values by their parts -/

theorem readsValue_text {t : CodeText} {front : List Char} (h : ReadsText [] t front) :
    ReadsValue depth (.text t) ('\x22' :: front) := by
  intro rest steps index _ hsteps
  rw [List.length_cons] at hsteps
  obtain ⟨steps, rfl⟩ : ∃ k, steps = k + 1 := ⟨steps - 1, by omega⟩
  obtain ⟨last, hlast⟩ := h rest steps index (index + 1) (by omega)
  refine ⟨last, ?_⟩
  simp only [List.cons_append, readValue, hlast]
  rfl

theorem readsValue_noFields {gap : List Char} (h : AllBlank gap) :
    ReadsValue (depth + 1) (.object []) ('\x7b' :: (gap ++ ['\x7d'])) := by
  intro rest steps index _ hsteps
  rw [List.length_cons] at hsteps
  obtain ⟨steps, rfl⟩ : ∃ k, steps = k + 1 := ⟨steps - 1, by omega⟩
  obtain ⟨last, hlast⟩ := skipBlanks_append h (.cons (rfl : Cursor.isBlank '\x7d' = false) rest)
    (index + 1)
  refine ⟨last + 1, ?_⟩
  simp only [List.cons_append, List.append_assoc, List.nil_append, readValue, Cursor.past, hlast]

theorem readsValue_fields {entries : List (CodeText × Value)} {gap front : List Char}
    (hgap : AllBlank gap) (h : ReadsFields depth entries front) :
    ReadsValue (depth + 1) (.object (setFields [] entries)) ('\x7b' :: (gap ++ front)) := by
  intro rest steps index _ hsteps
  simp only [List.length_cons, List.length_append] at hsteps
  obtain ⟨steps, rfl⟩ : ∃ k, steps = k + 1 := ⟨steps - 1, by omega⟩
  obtain ⟨tail, rfl⟩ := h.head?
  obtain ⟨inside, hinside⟩ := skipBlanks_append hgap
    (.cons (rfl : Cursor.isBlank '\x22' = false) (tail ++ rest)) (index + 1)
  obtain ⟨last, hlast⟩ := h.read (by omega : _ ≤ steps) [] rest inside
  refine ⟨last, ?_⟩
  simp only [List.cons_append, List.append_assoc, readValue, Cursor.past]
  rw [List.cons_append] at hlast
  rw [hinside]
  exact hlast

theorem readsValue_noItems {gap : List Char} (h : AllBlank gap) :
    ReadsValue (depth + 1) (.list []) ('[' :: (gap ++ [']'])) := by
  intro rest steps index _ hsteps
  rw [List.length_cons] at hsteps
  obtain ⟨steps, rfl⟩ : ∃ k, steps = k + 1 := ⟨steps - 1, by omega⟩
  obtain ⟨last, hlast⟩ := skipBlanks_append h (.cons (rfl : Cursor.isBlank ']' = false) rest)
    (index + 1)
  refine ⟨last + 1, ?_⟩
  simp only [List.cons_append, List.append_assoc, List.nil_append, readValue, Cursor.past, hlast]

theorem readsValue_items {v : Value} {gap front : List Char} (hgap : AllBlank gap)
    (hopens : Opens front) (h : ReadsItems depth [] v front) :
    ReadsValue (depth + 1) v ('[' :: (gap ++ front)) := by
  intro rest steps index _ hsteps
  simp only [List.length_cons, List.length_append] at hsteps
  obtain ⟨steps, rfl⟩ : ∃ k, steps = k + 1 := ⟨steps - 1, by omega⟩
  obtain ⟨inside, hinside⟩ := skipBlanks_append hgap (hopens.ends rest) (index + 1)
  obtain ⟨c, tail, rfl, -, hc, -⟩ := hopens
  obtain ⟨last, hlast⟩ := h rest steps inside (by omega)
  refine ⟨last, ?_⟩
  simp only [List.cons_append, List.append_assoc, readValue, Cursor.past]
  rw [List.cons_append] at hinside hlast
  rw [hinside]
  split
  · rename_i heq
    exact absurd (List.cons.inj heq).1 hc
  · exact hlast

/-- The last item of a list. -/
theorem ReadsValue.closes {v : Value} {front gap : List Char} (h : ReadsValue depth v front)
    (hgap : AllBlank gap) (items : List Value) :
    ReadsItems depth items (.list (v :: items).reverse) (front ++ (gap ++ [']'])) := by
  intro rest steps index hsteps
  simp only [List.length_append, List.length_singleton] at hsteps
  obtain ⟨steps, rfl⟩ : ∃ k, steps = k + 1 := ⟨steps - 1, by omega⟩
  obtain ⟨inside, last, hvalue, hlast⟩ :=
    h.then_blanks hgap (.cons (rfl : Cursor.isBlank ']' = false) rest)
      (.cons (rfl : isNumeric ']' = false) rest) (by omega : 2 * front.length ≤ steps) index
  refine ⟨last + 1, ?_⟩
  simp only [List.append_assoc, List.singleton_append, readItems, hvalue, hlast]
  rfl

/-- An item with more behind it. -/
theorem ReadsValue.goes_on {v w : Value} {items : List Value} {front gap gap' front' : List Char}
    (h : ReadsValue depth v front) (hgap : AllBlank gap) (hgap' : AllBlank gap')
    (hopens : Opens front') (hmore : ReadsItems depth (v :: items) w front') :
    ReadsItems depth items w (front ++ (gap ++ ',' :: (gap' ++ front'))) := by
  intro rest steps index hsteps
  simp only [List.length_append, List.length_cons] at hsteps
  obtain ⟨steps, rfl⟩ : ∃ k, steps = k + 1 := ⟨steps - 1, by omega⟩
  obtain ⟨inside, comma, hvalue, hcomma⟩ :=
    h.then_blanks hgap (.cons (rfl : Cursor.isBlank ',' = false) (gap' ++ (front' ++ rest)))
      (.cons (rfl : isNumeric ',' = false) (gap' ++ (front' ++ rest)))
      (by omega : 2 * front.length ≤ steps) index
  obtain ⟨next, hnext⟩ := skipBlanks_append hgap' (hopens.ends rest) (comma + 1)
  obtain ⟨last, hlast⟩ := hmore rest steps next (by omega)
  refine ⟨last, ?_⟩
  simp only [List.append_assoc, List.cons_append, readItems, hvalue, hcomma, Cursor.past, hnext,
    hlast]

/-! ### All values -/

/-- With so many steps, values are read from the characters that are taken. -/
def ValuesLocal (steps : Nat) : Prop :=
  ∀ depth cursor v after, readValue steps depth cursor = .ok (v, after) →
    ∃ front, cursor.rest = front ++ after.rest ∧ Opens front ∧ ReadsValue depth v front

theorem readFields_local (hvalues : ∀ k < steps, ValuesLocal k) {fields : List (CodeText × Value)}
    {cursor after : Cursor} {v : Value}
    (h : readFields steps depth fields cursor = .ok (v, after)) :
    ∃ entries front, cursor.rest = front ++ after.rest ∧ ReadsFields depth entries front ∧
      v = .object (setFields fields entries) := by
  induction steps generalizing fields cursor with
  | zero =>
    rw [readFields] at h
    cases h
  | succ steps ih =>
    obtain ⟨name, inside, value, last, hname, hvalue, hend⟩ := readFields_ok h
    obtain ⟨t, before, behind, hcursor, htext, hbefore, hbehind⟩ := readName_local hname
    obtain ⟨front, hinside, hopens, hread⟩ := hvalues steps (Nat.lt_succ_self _) _ _ _ _ hvalue
    obtain ⟨gap, hgap, hlast⟩ := skipBlanks_split last
    have hfield : ReadsField depth (name, value) _ := .colon htext hbefore hbehind hopens hread hgap
    rcases hend with ⟨hclose, rfl⟩ | ⟨s, hcomma, hmore⟩
    · refine ⟨[(name, value)], _, ?_, .last hfield, rfl⟩
      rw [hcursor, hinside, hlast, hclose]
      simp only [List.append_assoc, List.cons_append, List.nil_append]
    · obtain ⟨entries, front', hnext, hfields, rfl⟩ :=
        ih (fun k hk => hvalues k (Nat.lt_succ_of_lt hk)) hmore
      obtain ⟨gap', hgap', hs⟩ := skipBlanks_behind last.skipBlanks 1 s
      rw [hnext] at hs
      refine ⟨(name, value) :: entries, _, ?_, .more hfield hgap' hfields, rfl⟩
      rw [hcursor, hinside, hlast, hcomma, hs]
      simp only [List.append_assoc, List.cons_append]

theorem readItems_local (hvalues : ∀ k < steps, ValuesLocal k) {items : List Value}
    {cursor after : Cursor} {v : Value}
    (h : readItems steps depth items cursor = .ok (v, after)) :
    ∃ front, cursor.rest = front ++ after.rest ∧ Opens front ∧ ReadsItems depth items v front := by
  induction steps generalizing items cursor with
  | zero =>
    rw [readItems] at h
    cases h
  | succ steps ih =>
    obtain ⟨value, last, hvalue, hend⟩ := readItems_ok h
    obtain ⟨front, hinside, hopens, hread⟩ := hvalues steps (Nat.lt_succ_self _) _ _ _ _ hvalue
    obtain ⟨gap, hgap, hlast⟩ := skipBlanks_split last
    rcases hend with ⟨hclose, rfl⟩ | ⟨s, hcomma, hmore⟩
    · refine ⟨front ++ (gap ++ [']']), ?_, hopens.append _, hread.closes hgap items⟩
      rw [hinside, hlast, hclose]
      simp only [List.append_assoc, List.cons_append, List.nil_append]
    · obtain ⟨front', hnext, hopens', hread'⟩ :=
        ih (fun k hk => hvalues k (Nat.lt_succ_of_lt hk)) hmore
      obtain ⟨gap', hgap', hs⟩ := skipBlanks_behind last.skipBlanks 1 s
      rw [hnext] at hs
      refine ⟨front ++ (gap ++ ',' :: (gap' ++ front')), ?_, hopens.append _,
        hread.goes_on hgap hgap' hopens' hread'⟩
      rw [hinside, hlast, hcomma, hs]
      simp only [List.append_assoc, List.cons_append]

/-- A value is read from the characters that are taken, whatever follows them that does not go on a
number. -/
theorem valuesLocal (steps : Nat) : ValuesLocal steps := by
  -- the items and fields inside of a value are read with fewer steps, but not with one step fewer
  induction steps using Nat.strongRecOn with
  | ind steps ih =>
    intro depth cursor v after h
    rcases steps with _ | steps
    · rw [readValue] at h
      cases h
    have ih' : ∀ k < steps, ValuesLocal k := fun k hk => ih k (Nat.lt_succ_of_lt hk)
    cases readValue_ok h with
    | @text _ t s hs htext =>
      obtain ⟨front, hsplit, -, hread⟩ := readText_local htext
      exact ⟨'\x22' :: front, by rw [hs, hsplit]; rfl, ⟨_, _, rfl, by decide⟩,
        readsValue_text hread⟩
    | @noFields depth s hs hinside =>
      obtain ⟨gap, hgap, hsplit⟩ := skipBlanks_behind cursor 1 s
      refine ⟨'\x7b' :: (gap ++ ['\x7d']), ?_, ⟨_, _, rfl, by decide⟩, readsValue_noFields hgap⟩
      rw [hinside] at hsplit
      rw [hs, hsplit]
      simp only [List.cons_append, List.append_assoc, List.nil_append]
    | @fields depth _ s hs hfields =>
      obtain ⟨gap, hgap, hsplit⟩ := skipBlanks_behind cursor 1 s
      obtain ⟨entries, front, hnext, hread, rfl⟩ := readFields_local ih' hfields
      refine ⟨'\x7b' :: (gap ++ front), ?_, ⟨_, _, rfl, by decide⟩, readsValue_fields hgap hread⟩
      rw [hnext] at hsplit
      rw [hs, hsplit]
      simp only [List.cons_append, List.append_assoc]
    | @noItems depth s hs hinside =>
      obtain ⟨gap, hgap, hsplit⟩ := skipBlanks_behind cursor 1 s
      refine ⟨'[' :: (gap ++ [']']), ?_, ⟨_, _, rfl, by decide⟩, readsValue_noItems hgap⟩
      rw [hinside] at hsplit
      rw [hs, hsplit]
      simp only [List.cons_append, List.append_assoc, List.nil_append]
    | @items depth _ s hs hitems =>
      obtain ⟨gap, hgap, hsplit⟩ := skipBlanks_behind cursor 1 s
      obtain ⟨front, hnext, hopens, hread⟩ := readItems_local ih' hitems
      refine ⟨'[' :: (gap ++ front), ?_, ⟨_, _, rfl, by decide⟩, readsValue_items hgap hopens hread⟩
      rw [hnext] at hsplit
      rw [hs, hsplit]
      simp only [List.cons_append, List.append_assoc]
    | word hword =>
      obtain ⟨word, hmem, rfl, hsplit⟩ := readWord?_ok hword
      exact ⟨_, hsplit, readsValue_word hmem⟩
    | number hnumber => exact readsValue_number hnumber

/-- A text is read from the characters in quotes. -/
theorem readValue_text {cursor after : Cursor} {t : CodeText}
    (h : readValue steps depth cursor = .ok (.text t, after)) :
    ∃ front, cursor.rest = '\x22' :: (front ++ after.rest) ∧ ReadsText [] t front := by
  rcases steps with _ | steps
  · rw [readValue] at h
    cases h
  · cases readValue_ok h with
    | text hs htext =>
      obtain ⟨front, rfl, -, hread⟩ := readText_local htext
      exact ⟨front, hs, hread⟩
    | fields hs hfields =>
      obtain ⟨fields, hobject⟩ := readFields_object hfields
      cases hobject
    | items hs hitems =>
      obtain ⟨items, hlist⟩ := readItems_list hitems
      cases hlist
    | word hword => exact absurd (readWord?_plain hword) id
    | number hnumber => exact absurd (readNumber?_plain hnumber) id

/-- An object is read from the characters in braces: blanks or fields. -/
theorem readValue_object {cursor after : Cursor} {fields : List (CodeText × Value)}
    (h : readValue steps depth cursor = .ok (.object fields, after)) :
    ∃ inside gap, depth = inside + 1 ∧ AllBlank gap ∧
      (cursor.rest = '\x7b' :: (gap ++ '\x7d' :: after.rest) ∧ fields = [] ∨
        ∃ entries front, cursor.rest = '\x7b' :: (gap ++ (front ++ after.rest)) ∧
          fields = setFields [] entries ∧ ReadsFields inside entries front) := by
  rcases steps with _ | steps
  · rw [readValue] at h
    cases h
  · cases readValue_ok h with
    | @noFields inside s hs hinside =>
      obtain ⟨gap, hgap, hsplit⟩ := skipBlanks_behind cursor 1 s
      rw [hinside] at hsplit
      exact ⟨inside, gap, rfl, hgap, .inl ⟨by rw [hs, hsplit], rfl⟩⟩
    | @fields inside _ s hs hfields =>
      obtain ⟨gap, hgap, hsplit⟩ := skipBlanks_behind cursor 1 s
      obtain ⟨entries, front, hnext, hread, hobject⟩ :=
        readFields_local (fun k _ => valuesLocal k) hfields
      rw [hnext] at hsplit
      exact ⟨inside, gap, rfl, hgap, .inr ⟨entries, front, by rw [hs, hsplit],
        Value.object.inj hobject, hread⟩⟩
    | items hs hitems =>
      obtain ⟨items, hlist⟩ := readItems_list hitems
      cases hlist
    | word hword => exact absurd (readWord?_plain hword) id
    | number hnumber => exact absurd (readNumber?_plain hnumber) id

/-! ### Documents -/

/-- A document that is read is a value with blanks around. -/
theorem read_ok {document : List Char} {v : Value} (h : read depth document = .ok v) :
    ∃ before inside last, document = before ++ inside.rest ∧ AllBlank before ∧
      readValue (2 * document.length + 2) depth inside = .ok (v, last) ∧ AllBlank last.rest := by
  obtain ⟨last, hvalue, hend⟩ := readValue_of_read h
  obtain ⟨before, hbefore, hsplit⟩ := skipBlanks_split ⟨document, 0⟩
  obtain ⟨after, hafter, hlast⟩ := skipBlanks_split last
  rw [hend, List.append_nil] at hlast
  exact ⟨before, _, last, hsplit, hbefore, hvalue, hlast ▸ hafter⟩

/-- A value with blanks around is what the document is read as. -/
theorem read_of_readsValue {before front after : List Char} {v : Value} (hbefore : AllBlank before)
    (hopens : Opens front) (h : ReadsValue depth v front) (hafter : AllBlank after) :
    read depth (before ++ (front ++ after)) = .ok v := by
  have hmark : ∀ x, before ++ (front ++ after) ≠ '\ufeff' :: x := by
    intro x heq
    rcases before with _ | ⟨c, before⟩
    · obtain ⟨c, tail, rfl, -, -, hc⟩ := hopens
      exact hc (List.cons.inj heq).1
    · have hc := hbefore c List.mem_cons_self
      rw [(List.cons.inj heq).1] at hc
      cases hc
  have hends : ∀ isKind, Ends isKind [] := fun _ c hc => by cases hc
  obtain ⟨start, hstart⟩ := skipBlanks_append hbefore (hopens.ends after) 0
  obtain ⟨last, hlast⟩ := h after (2 * (before ++ (front ++ after)).length + 2) start
    (by simpa using hafter.ends_isNumeric (hends _)) (by simp only [List.length_append]; omega)
  obtain ⟨finish, hfinish⟩ := skipBlanks_append hafter (hends Cursor.isBlank) last
  rw [List.append_nil] at hfinish
  rw [read_unmarked hmark]
  simp only [hstart, hlast, bind, Except.bind, hfinish]
  rfl

end Unroll.Json
