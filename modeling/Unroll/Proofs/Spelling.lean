import Unroll.Json.Reader

/-!
# How documents are spelled

A document can be spelled in many ways. Blanks may stand between its parts, and each character of a
text may stand for itself, unless it is a quote, a backslash or a control character, or may be
escaped by a short escape, by its number, or by the two halves of a surrogate pair. Half of a pair
without the other half is spelled by its number. A spelling relates what it is of to what is left
before it and after it.

* `Blanks`, `SpellsChar`, `SpellsText`, `SpellsFields`, `SpellsObject` — the spellings of the parts of
  an object whose values are texts;
* `SpellsText.read`, `SpellsFields.read` — the readers of the parts find what is spelled;
* `SpellsObject.read` — so does the reader of documents.
-/

namespace Unroll.Json

/-! ### Spellings -/

/-- Any number of the four characters that may stand between the parts of a document. -/
inductive Blanks : List Char → List Char → Prop where
  | none {rest : List Char} : Blanks rest rest
  | more {c : Char} {s rest : List Char} (hc : c ∈ [' ', '\t', '\n', '\r']) (h : Blanks s rest) :
      Blanks (c :: s) rest

/-- A hexadecimal digit of either case. -/
def HexDigit (c : Char) (n : Nat) : Prop :=
  n < 16 ∧ (c = Nat.digitChar n ∨ c = (Nat.digitChar n).toUpper)

instance (c : Char) (n : Nat) : Decidable (HexDigit c n) := inferInstanceAs (Decidable (_ ∧ _))

/-- A number below `10000`, hexadecimal, after `\u`. -/
inductive SpellsUnit : Nat → List Char → List Char → Prop where
  | digits {a b c d : Char} {w x y z : Nat} {rest : List Char} (ha : HexDigit a w)
      (hb : HexDigit b x) (hc : HexDigit c y) (hd : HexDigit d z) :
      SpellsUnit (4096 * w + 256 * x + 16 * y + z) ('\\' :: 'u' :: a :: b :: c :: d :: rest) rest

/-- The characters that have a short escape, each with the character that stands for it there. -/
def shortEscapes : List (Char × Char) :=
  [('\x22', '\x22'), ('\\', '\\'), ('/', '/'), ('\x08', 'b'), ('\x0c', 'f'), ('\n', 'n'),
   ('\r', 'r'), ('\t', 't')]

/-- One character of a text. -/
inductive SpellsChar : Char → List Char → List Char → Prop where
  | plain {c : Char} {rest : List Char} (hcontrol : 0x20 ≤ c.toNat) (hquote : c ≠ '\x22')
      (hbackslash : c ≠ '\\') : SpellsChar c (c :: rest) rest
  | short {c e : Char} {rest : List Char} (h : (c, e) ∈ shortEscapes) :
      SpellsChar c ('\\' :: e :: rest) rest
  | unit {c : Char} {s rest : List Char} (h : SpellsUnit c.toNat s rest) : SpellsChar c s rest
  | pair {c : Char} {s t rest : List Char} (hc : 0x10000 ≤ c.toNat)
      (hhigh : SpellsUnit (0xD800 + (c.toNat - 0x10000) / 0x400) s t)
      (hlow : SpellsUnit (0xDC00 + (c.toNat - 0x10000) % 0x400) t rest) : SpellsChar c s rest

/-- The rest of a text, with the closing quote. A first half of a surrogate pair right before a second
half has no spelling, since the two would be read as one character. -/
inductive SpellsText : CodeText → List Char → List Char → Prop where
  | close {rest : List Char} : SpellsText [] ('\x22' :: rest) rest
  | char {c : Char} {cs : CodeText} {s t rest : List Char} (h : SpellsChar c s t)
      (hrest : SpellsText cs t rest) : SpellsText (c :: cs) s rest
  | half {index : Fin 0x800} {cs : CodeText} {s t rest : List Char}
      (h : SpellsUnit (CodePoint.half index).number s t) (hrest : SpellsText cs t rest)
      (halone : isHighSurrogate (CodePoint.half index).number = true →
        ∀ d ∈ cs.head?, isLowSurrogate d.number = false) :
      SpellsText (.half index :: cs) s rest

/-- A text in quotes. -/
inductive SpellsString : CodeText → List Char → List Char → Prop where
  | quoted {text : CodeText} {s rest : List Char} (h : SpellsText text s rest) :
      SpellsString text ('\x22' :: s) rest

/-- A field, with the blanks behind it. -/
inductive SpellsField : String × CodeText → List Char → List Char → Prop where
  | colon {name : String} {v : CodeText} {s₁ s₂ s₃ s₄ s₅ rest : List Char}
      (hname : SpellsString name s₁ s₂) (hbefore : Blanks s₂ (':' :: s₃)) (hbehind : Blanks s₃ s₄)
      (hv : SpellsString v s₄ s₅) (hend : Blanks s₅ rest) : SpellsField (name, v) s₁ rest

/-- The fields of an object that has some, with the closing brace. -/
inductive SpellsFields : List (String × CodeText) → List Char → List Char → Prop where
  | last {field : String × CodeText} {s rest : List Char}
      (h : SpellsField field s ('\x7d' :: rest)) : SpellsFields [field] s rest
  | more {field : String × CodeText} {fields : List (String × CodeText)} {s t u rest : List Char}
      (h : SpellsField field s (',' :: t)) (hblanks : Blanks t u)
      (hrest : SpellsFields fields u rest) : SpellsFields (field :: fields) s rest

/-- A document of one object whose values are texts. -/
inductive SpellsObject : List (String × CodeText) → List Char → Prop where
  | empty {s t document : List Char} (hbefore : Blanks document ('\x7b' :: s))
      (hinside : Blanks s ('\x7d' :: t)) (hbehind : Blanks t []) : SpellsObject [] document
  | fields {fields : List (String × CodeText)} {s t u document : List Char}
      (hbefore : Blanks document ('\x7b' :: s)) (hinside : Blanks s t)
      (h : SpellsFields fields t u) (hbehind : Blanks u []) : SpellsObject fields document

/-! ### Blanks -/

theorem isBlank_iff {c : Char} :
    Cursor.isBlank c = true ↔ c ∈ [' ', '\t', '\n', '\r'] := by
  simp [Cursor.isBlank, or_assoc]

theorem Blanks.skip {s rest : List Char} (h : Blanks s rest)
    (hrest : ∀ c ∈ rest.head?, Cursor.isBlank c = false) (index : Nat) :
    ∃ after, Cursor.skipBlanks ⟨s, index⟩ = ⟨rest, after⟩ := by
  have hdrop : s.dropWhile Cursor.isBlank = rest := by
    induction h with
    | @none rest =>
      cases rest with
      | nil => rfl
      | cons c rest => rw [List.dropWhile_cons_of_neg (by simp [hrest c rfl])]
    | more hc _ ih => rw [List.dropWhile_cons_of_pos (isBlank_iff.2 hc), ih hrest]
  exact ⟨_, by rw [Cursor.skipBlanks, Cursor.past, hdrop]⟩

/-! ### Texts -/

theorem HexDigit.value {c : Char} {n : Nat} (h : HexDigit c n) : hexDigit? c = some n := by
  have hall : ∀ n < 16, hexDigit? (Nat.digitChar n) = some n ∧
      hexDigit? (Nat.digitChar n).toUpper = some n := by decide
  obtain ⟨hn, rfl | rfl⟩ := h
  · exact (hall n hn).1
  · exact (hall n hn).2

theorem SpellsUnit.digits? {n : Nat} {s rest : List Char} (h : SpellsUnit n s rest) :
    ∃ a b c d, s = '\\' :: 'u' :: a :: b :: c :: d :: rest ∧ hexNumber? a b c d = some n := by
  cases h with
  | digits ha hb hc hd =>
    refine ⟨_, _, _, _, rfl, ?_⟩
    rw [hexNumber?, ha.value, hb.value, hc.value, hd.value]
    rfl

/-- The numbers of characters are none of those of the halves of surrogate pairs. -/
theorem surrogate_toNat (c : Char) :
    isHighSurrogate c.toNat = false ∧ isLowSurrogate c.toNat = false := by
  have hvalid : c.toNat < 0xD800 ∨ 0xDFFF < c.toNat ∧ c.toNat < 0x110000 := c.valid
  simp only [isHighSurrogate, isLowSurrogate, Bool.and_eq_false_iff, decide_eq_false_iff_not]
  omega

theorem ofNumber_toNat (c : Char) : CodePoint.ofNumber c.toNat = c := by
  have hvalid : c.toNat < 0xD800 ∨ 0xDFFF < c.toNat ∧ c.toNat < 0x110000 := c.valid
  rw [CodePoint.ofNumber, dif_neg (by omega), Char.ofNat_toNat]

theorem ofNumber_half (index : Fin 0x800) :
    CodePoint.ofNumber (CodePoint.half index).number = .half index := by
  have hindex := index.isLt
  rw [CodePoint.number, CodePoint.ofNumber, dif_pos (by omega)]
  simp

/-- The halves of a character beyond the basic plane are those of a pair, which stands for it. -/
theorem joinSurrogates_toNat {c : Char} (hc : 0x10000 ≤ c.toNat) :
    isHighSurrogate (0xD800 + (c.toNat - 0x10000) / 0x400) = true ∧
      isLowSurrogate (0xDC00 + (c.toNat - 0x10000) % 0x400) = true ∧
      joinSurrogates (0xD800 + (c.toNat - 0x10000) / 0x400)
        (0xDC00 + (c.toNat - 0x10000) % 0x400) = c := by
  have hvalid : c.toNat < 0xD800 ∨ 0xDFFF < c.toNat ∧ c.toNat < 0x110000 := c.valid
  refine ⟨?_, ?_, ?_⟩
  · simp only [isHighSurrogate, Bool.and_eq_true, decide_eq_true_eq]
    omega
  · simp only [isLowSurrogate, Bool.and_eq_true, decide_eq_true_eq]
    omega
  · have hnumber : 0x10000 + 1024 * (0xD800 + (c.toNat - 0x10000) / 0x400 - 0xD800) +
        (0xDC00 + (c.toNat - 0x10000) % 0x400 - 0xDC00) = c.toNat := by omega
    rw [joinSurrogates, hnumber, Char.ofNat_toNat]

variable {opening steps depth index : Nat} {done : CodeText} {s t rest : List Char}

theorem readText_plain {c : Char} (hcontrol : 0x20 ≤ c.toNat) (hquote : c ≠ '\x22')
    (hbackslash : c ≠ '\\') :
    readText opening (steps + 1) done index (c :: rest) =
      readText opening steps (c :: done) (index + 1) rest := by
  rw [readText]
  · rw [if_neg (by omega)]
  · exact hquote
  all_goals
    intros
    contradiction

theorem readText_short {c e : Char} (h : (c, e) ∈ shortEscapes) :
    readText opening (steps + 1) done index ('\\' :: e :: rest) =
      readText opening steps (c :: done) (index + 2) rest := by
  simp only [shortEscapes, List.mem_cons, Prod.mk.injEq, List.not_mem_nil, or_false] at h
  rcases h with ⟨rfl, rfl⟩ | ⟨rfl, rfl⟩ | ⟨rfl, rfl⟩ | ⟨rfl, rfl⟩ | ⟨rfl, rfl⟩ | ⟨rfl, rfl⟩ |
    ⟨rfl, rfl⟩ | ⟨rfl, rfl⟩ <;> rfl

/-- The code point numbered `n` is no first half of a pair whose second half is at the front of
`rest`. -/
def Alone (n : Nat) (rest : List Char) : Prop :=
  isHighSurrogate n = true → ∀ half, secondHalf? rest = some half →
    ∃ m x, half = some (m, x) ∧ isLowSurrogate m = false

theorem readText_alone {a b c d e : Char} {n : Nat} (hn : hexNumber? a b c d = some n)
    (h : Alone n (e :: rest)) :
    readText opening (steps + 1) done index ('\\' :: 'u' :: a :: b :: c :: d :: e :: rest) =
      readText opening steps (.ofNumber n :: done) (index + 6) (e :: rest) := by
  by_cases hhigh : isHighSurrogate n = true
  · rcases hhalf : secondHalf? (e :: rest) with _ | half
    · simp only [readText, hn, hhigh, hhalf, if_true]
    · obtain ⟨m, x, rfl, hlow⟩ := h hhigh half hhalf
      simp only [readText, hn, hhigh, hhalf, if_true, hlow, Bool.false_eq_true, if_false]
  · simp only [readText, hn, if_neg hhigh]

theorem readText_unit {n : Nat} (h : SpellsUnit n s rest) (hrest : rest ≠ [])
    (halone : Alone n rest) :
    readText opening (steps + 1) done index s =
      readText opening steps (.ofNumber n :: done) (index + 6) rest := by
  obtain ⟨a, b, c, d, rfl, hnumber⟩ := h.digits?
  obtain ⟨e, rest, rfl⟩ := List.exists_cons_of_ne_nil hrest
  exact readText_alone hnumber halone

theorem readText_pair {n m : Nat} (hfirst : SpellsUnit n s t) (hsecond : SpellsUnit m t rest)
    (hrest : rest ≠ []) (hhigh : isHighSurrogate n = true) (hlow : isLowSurrogate m = true) :
    readText opening (steps + 1) done index s =
      readText opening steps (joinSurrogates n m :: done) (index + 12) rest := by
  obtain ⟨a, b, c, d, rfl, hnumber⟩ := hfirst.digits?
  obtain ⟨a', b', c', d', rfl, hnumber'⟩ := hsecond.digits?
  obtain ⟨e, rest, rfl⟩ := List.exists_cons_of_ne_nil hrest
  simp only [readText, hnumber, hhigh, secondHalf?, hnumber', Option.map_some, hlow, if_true]

/-- One step of the reader of texts takes one character, however it is spelled. -/
theorem SpellsChar.read {c : Char} (h : SpellsChar c s rest) (hrest : rest ≠ [])
    (steps opening index : Nat) (done : CodeText) :
    ∃ after, readText opening (steps + 1) done index s =
      readText opening steps (c :: done) after rest := by
  cases h with
  | plain hcontrol hquote hbackslash => exact ⟨_, readText_plain hcontrol hquote hbackslash⟩
  | short h => exact ⟨_, readText_short h⟩
  | unit h =>
    refine ⟨index + 6, ?_⟩
    rw [readText_unit h hrest fun hhigh => absurd hhigh (by simp [surrogate_toNat]),
      ofNumber_toNat]
  | pair hc hfirst hsecond =>
    obtain ⟨hhigh, hlow, hjoin⟩ := joinSurrogates_toNat hc
    refine ⟨index + 12, ?_⟩
    rw [readText_pair hfirst hsecond hrest hhigh hlow, hjoin]

theorem SpellsUnit.length_eq {n : Nat} (h : SpellsUnit n s rest) : s.length = rest.length + 6 := by
  cases h with
  | digits => rfl

theorem SpellsChar.length_lt {c : Char} (h : SpellsChar c s rest) : rest.length < s.length := by
  cases h with
  | plain => exact Nat.lt_succ_self _
  | short => exact Nat.lt_add_of_pos_right Nat.two_pos
  | unit h =>
    have hlength := h.length_eq
    omega
  | pair _ hfirst hsecond =>
    have hlength := hfirst.length_eq
    have hlength' := hsecond.length_eq
    omega

theorem SpellsText.length_lt {cs : CodeText} (h : SpellsText cs s rest) :
    cs.length + rest.length < s.length := by
  induction h with
  | close => simp
  | char h _ ih =>
    have hlength := h.length_lt
    rw [List.length_cons]
    omega
  | half h _ _ ih =>
    have hlength := h.length_eq
    rw [List.length_cons]
    omega

theorem SpellsText.ne_nil {cs : CodeText} (h : SpellsText cs s rest) : s ≠ [] :=
  List.ne_nil_of_length_pos (Nat.zero_lt_of_lt h.length_lt)

/-- Characters that may stand for themselves, before the rest of a text. -/
theorem SpellsText.plain {cs : List Char} {ds : CodeText}
    (h : ∀ c ∈ cs, 0x20 ≤ c.toNat ∧ c ≠ '\x22' ∧ c ≠ '\\') (hrest : SpellsText ds s rest) :
    SpellsText (cs.map .char ++ ds) (cs ++ s) rest := by
  induction cs with
  | nil => exact hrest
  | cons c cs ih =>
    obtain ⟨⟨hcontrol, hquote, hbackslash⟩, hcs⟩ := List.forall_mem_cons.1 h
    exact .char (.plain hcontrol hquote hbackslash) (ih hcs)

theorem SpellsUnit.secondHalf? {n : Nat} (h : SpellsUnit n s rest) (hrest : rest ≠ []) :
    Json.secondHalf? s = some (some (n, rest)) := by
  obtain ⟨a, b, c, d, rfl, hnumber⟩ := h.digits?
  obtain ⟨e, rest, rfl⟩ := List.exists_cons_of_ne_nil hrest
  rw [Json.secondHalf?, hnumber, Option.map_some]

theorem SpellsUnit.alone {n m : Nat} (h : SpellsUnit m s rest) (hrest : rest ≠ [])
    (hlow : isLowSurrogate m = false) : Alone n s := by
  intro _ half hhalf
  rw [h.secondHalf? hrest] at hhalf
  exact ⟨m, rest, (Option.some.inj hhalf).symm, hlow⟩

/-- What does not begin with an escape by number is no second half. -/
theorem alone_cons {n : Nat} {c : Char} (h : c = '\\' → ∀ t, s ≠ 'u' :: t) : Alone n (c :: s) := by
  intro _ half hhalf
  rw [secondHalf?.eq_def] at hhalf
  split at hhalf
  · rename_i heq
    exact absurd (List.cons.inj heq).2 (h (List.cons.inj heq).1 _)
  · cases hhalf

/-- A second half is found at the front of a text only where its first code point is one. -/
theorem SpellsText.alone {cs : CodeText} (h : SpellsText cs s rest) {n : Nat}
    (hcs : isHighSurrogate n = true → ∀ d ∈ cs.head?, isLowSurrogate d.number = false) :
    Alone n s := by
  cases h with
  | close => exact alone_cons (by simp)
  | @char c cs s t rest h hrest =>
    cases h with
    | plain hcontrol hquote hbackslash => exact alone_cons fun heq => absurd heq hbackslash
    | short h =>
      refine alone_cons ?_
      rintro - t heq
      obtain ⟨rfl, -⟩ := List.cons.inj heq
      exact absurd h (by simp [shortEscapes])
    | unit h => exact h.alone hrest.ne_nil (surrogate_toNat c).2
    | pair hc hfirst hsecond =>
      refine hfirst.alone (List.ne_nil_of_length_pos ?_) ?_
      · rw [hsecond.length_eq]
        exact Nat.succ_pos _
      · have hvalid : c.toNat < 0xD800 ∨ 0xDFFF < c.toNat ∧ c.toNat < 0x110000 := c.valid
        simp only [isLowSurrogate, Bool.and_eq_false_iff, decide_eq_false_iff_not]
        omega
  | half h hrest =>
    by_cases hhigh : isHighSurrogate n = true
    · exact h.alone hrest.ne_nil (hcs hhigh _ rfl)
    · exact fun htrue => absurd htrue hhigh

/-- The reader of texts finds the text that is spelled. -/
theorem SpellsText.read {cs : CodeText} (h : SpellsText cs s rest) (hsteps : cs.length < steps)
    (opening index : Nat) (done : CodeText) :
    ∃ after, readText opening steps done index s =
      .ok (done.reverse ++ cs, ⟨rest, after⟩) := by
  induction h generalizing steps done index with
  | @close rest =>
    obtain ⟨steps, rfl⟩ : ∃ k, steps = k + 1 := Nat.exists_eq_add_one.2 hsteps
    refine ⟨index + 1, ?_⟩
    rw [List.append_nil]
    rfl
  | @char c cs s t rest hchar htext ih =>
    obtain ⟨steps, rfl⟩ : ∃ k, steps = k + 1 := Nat.exists_eq_add_one.2 (Nat.zero_lt_of_lt hsteps)
    obtain ⟨middle, hmiddle⟩ := hchar.read htext.ne_nil steps opening index done
    obtain ⟨after, hafter⟩ := ih (Nat.lt_of_succ_lt_succ hsteps) middle (c :: done)
    refine ⟨after, ?_⟩
    rw [hmiddle, hafter, List.reverse_cons, List.append_assoc, List.singleton_append]
  | @half half cs s t rest hunit htext halone ih =>
    obtain ⟨steps, rfl⟩ : ∃ k, steps = k + 1 := Nat.exists_eq_add_one.2 (Nat.zero_lt_of_lt hsteps)
    obtain ⟨after, hafter⟩ := ih (Nat.lt_of_succ_lt_succ hsteps) (index + 6) (.half half :: done)
    refine ⟨after, ?_⟩
    rw [readText_unit hunit htext.ne_nil (htext.alone halone), ofNumber_half, hafter,
      List.reverse_cons, List.append_assoc, List.singleton_append]

/-! ### Fields -/

theorem Blanks.length_le (h : Blanks s rest) : rest.length ≤ s.length := by
  induction h with
  | none => exact Nat.le_refl _
  | more _ _ ih => exact Nat.le_succ_of_le ih

theorem SpellsString.length_lt {text : CodeText} (h : SpellsString text s rest) :
    text.length + rest.length + 1 < s.length := by
  cases h with
  | quoted h => exact Nat.succ_lt_succ h.length_lt

theorem SpellsString.head {text : CodeText} (h : SpellsString text s rest) :
    ∀ c ∈ s.head?, Cursor.isBlank c = false := by
  cases h with
  | quoted => simp [Cursor.isBlank]

/-- The text behind the quote that a spelling begins with is the text that is spelled. -/
theorem SpellsString.read {text : CodeText} (h : SpellsString text s rest)
    (hsteps : text.length < steps) (index : Nat) :
    ∃ t after, s = '\x22' :: t ∧
      readText index steps [] (index + 1) t = .ok (text, ⟨rest, after⟩) := by
  cases h with
  | @quoted t _ h =>
    obtain ⟨after, hafter⟩ := h.read hsteps index (index + 1) []
    rw [List.reverse_nil, List.nil_append] at hafter
    exact ⟨t, after, rfl, hafter⟩

theorem SpellsString.readName {name : CodeText} (h : SpellsString name s t) {u : List Char}
    (hbefore : Blanks t (':' :: u)) (hbehind : Blanks u rest)
    (hrest : ∀ c ∈ rest.head?, Cursor.isBlank c = false) (hsteps : name.length < steps)
    (index : Nat) : ∃ after, Json.readName steps ⟨s, index⟩ = .ok (name, ⟨rest, after⟩) := by
  obtain ⟨s, last, rfl, htext⟩ := h.read hsteps index
  obtain ⟨colon, hcolon⟩ := hbefore.skip (by simp [Cursor.isBlank]) last
  obtain ⟨after, hafter⟩ := hbehind.skip hrest (colon + 1)
  refine ⟨after, ?_⟩
  simp only [Json.readName, htext, bind, Except.bind, hcolon, Cursor.past, hafter]
  rfl

theorem SpellsString.readValue {v : CodeText} (h : SpellsString v s rest)
    (hsteps : v.length + 1 < steps) (depth index : Nat) :
    ∃ after, Json.readValue steps depth ⟨s, index⟩ = .ok (.text v, ⟨rest, after⟩) := by
  obtain ⟨steps, rfl⟩ : ∃ k, steps = k + 1 := Nat.exists_eq_add_one.2 (Nat.zero_lt_of_lt hsteps)
  obtain ⟨s, after, rfl, htext⟩ := h.read (Nat.lt_of_succ_lt_succ hsteps) index
  refine ⟨after, ?_⟩
  simp only [Json.readValue, htext]
  rfl

theorem SpellsField.length_lt {entry : String × CodeText} (h : SpellsField entry s rest) :
    rest.length < s.length := by
  cases h with
  | colon hname hbefore hbehind hv hend =>
    have hname' := hname.length_lt
    have hbefore' := hbefore.length_le
    have hbehind' := hbehind.length_le
    have hv' := hv.length_lt
    have hend' := hend.length_le
    rw [List.length_cons] at hbefore'
    omega

/-- The readers of names and values find the field that is spelled. -/
theorem SpellsField.read {entry : String × CodeText} (h : SpellsField entry s rest)
    (hrest : ∀ c ∈ rest.head?, Cursor.isBlank c = false) (hsteps : s.length ≤ steps)
    (depth index : Nat) :
    ∃ inside last after, readName steps ⟨s, index⟩ = .ok (entry.1, inside) ∧
      readValue steps depth inside = .ok (.text entry.2, last) ∧
      last.skipBlanks = ⟨rest, after⟩ := by
  cases h with
  | @colon name v s₁ s₂ s₃ s₄ s₅ rest hname hbefore hbehind hv hend =>
    have hname' := hname.length_lt
    have hbefore' := hbefore.length_le
    have hbehind' := hbehind.length_le
    have hv' := hv.length_lt
    rw [List.length_cons] at hbefore'
    obtain ⟨middle, hmiddle⟩ := hname.readName hbefore hbehind hv.head
      (Nat.lt_of_lt_of_le (Nat.lt_of_le_of_lt (by omega) hname') hsteps) index
    obtain ⟨last, hlast⟩ := hv.readValue
      (Nat.lt_of_lt_of_le (Nat.lt_of_le_of_lt (by omega) hname') hsteps) depth middle
    obtain ⟨after, hafter⟩ := hend.skip hrest last
    exact ⟨_, _, after, hmiddle, hlast, hafter⟩

theorem SpellsFields.head {entries : List (String × CodeText)} (h : SpellsFields entries s rest) :
    s.head? = some '\x22' := by
  cases h with
  | last h | more h =>
    cases h with
    | colon hname =>
      cases hname with
      | quoted => rfl

/-- The fields of an object when further ones, whose values are texts, have been read. -/
def setTexts (fields : List (CodeText × Value)) (entries : List (String × CodeText)) :
    List (CodeText × Value) :=
  entries.foldl (fun fields entry => setField entry.1 (.text entry.2) fields) fields

/-- The reader of fields finds the fields that are spelled. -/
theorem SpellsFields.read {entries : List (String × CodeText)} (h : SpellsFields entries s rest)
    (hsteps : s.length < steps) (depth index : Nat) (fields : List (CodeText × Value)) :
    ∃ after, readFields steps depth fields ⟨s, index⟩ =
      .ok (.object (setTexts fields entries), ⟨rest, after⟩) := by
  induction h generalizing steps index fields with
  | @last entry s rest h =>
    obtain ⟨steps, rfl⟩ : ∃ k, steps = k + 1 := Nat.exists_eq_add_one.2 (Nat.zero_lt_of_lt hsteps)
    obtain ⟨inside, last, after, hname, hvalue, hafter⟩ :=
      h.read (by simp [Cursor.isBlank]) (Nat.le_of_lt_succ hsteps) depth index
    refine ⟨after + 1, ?_⟩
    simp only [readFields, hname, hvalue, hafter]
    rfl
  | @more entry entries s t u rest h hblanks hrest ih =>
    obtain ⟨steps, rfl⟩ : ∃ k, steps = k + 1 := Nat.exists_eq_add_one.2 (Nat.zero_lt_of_lt hsteps)
    obtain ⟨inside, last, comma, hname, hvalue, hcomma⟩ :=
      h.read (by simp [Cursor.isBlank]) (Nat.le_of_lt_succ hsteps) depth index
    obtain ⟨next, hnext⟩ := hblanks.skip (by simp [hrest.head, Cursor.isBlank]) (comma + 1)
    have hlength := h.length_lt
    have hlength' := hblanks.length_le
    rw [List.length_cons] at hlength
    obtain ⟨after, hafter⟩ := ih (by omega : u.length < steps) next
      (setField entry.1 (.text entry.2) fields)
    refine ⟨after, ?_⟩
    simp only [readFields, hname, hvalue, hcomma, Cursor.past, hnext, hafter]
    rfl

/-! ### Documents -/

/-- The reader of values finds the object that is spelled, whose braces may have blanks inside. -/
theorem SpellsObject.readValue {entries : List (String × CodeText)} {document : List Char}
    (h : SpellsObject entries document) (depth : Nat) :
    ∃ last after, Json.readValue (2 * document.length + 2) (depth + 1)
        (Cursor.skipBlanks ⟨document, 0⟩) = .ok (.object (setTexts [] entries), last) ∧
      last.skipBlanks = ⟨[], after⟩ := by
  cases h with
  | empty hbefore hinside hbehind =>
    obtain ⟨first, hfirst⟩ := hbefore.skip (by simp [Cursor.isBlank]) 0
    obtain ⟨second, hsecond⟩ := hinside.skip (by simp [Cursor.isBlank]) (first + 1)
    obtain ⟨after, hafter⟩ := hbehind.skip (by simp) (second + 1)
    refine ⟨_, after, ?_, hafter⟩
    simp only [hfirst, Json.readValue, Cursor.past, hsecond]
    rfl
  | @fields entries s t u document hbefore hinside h hbehind =>
    have hbefore' := hbefore.length_le
    have hinside' := hinside.length_le
    rw [List.length_cons] at hbefore'
    obtain ⟨first, hfirst⟩ := hbefore.skip (by simp [Cursor.isBlank]) 0
    obtain ⟨second, hsecond⟩ := hinside.skip (by simp [h.head, Cursor.isBlank]) (first + 1)
    obtain ⟨last, hlast⟩ := h.read (by omega : t.length < 2 * document.length + 1) depth second []
    obtain ⟨after, hafter⟩ := hbehind.skip (by simp) last
    refine ⟨_, after, ?_, hafter⟩
    simp only [hfirst, Json.readValue, Cursor.past, hsecond]
    split
    · exact absurd h.head (by simp)
    · exact hlast

/-- The reader of documents finds the object that is spelled. -/
theorem SpellsObject.read {entries : List (String × CodeText)} {document : List Char}
    (h : SpellsObject entries document) (depth : Nat) :
    Json.read (depth + 1) document = .ok (.object (setTexts [] entries)) := by
  obtain ⟨last, after, hvalue, hafter⟩ := h.readValue depth
  have hmark : ∀ rest, document ≠ '\ufeff' :: rest := by
    rintro rest rfl
    cases h with
    | empty hbefore | fields hbefore =>
      cases hbefore with
      | more hc => simp at hc
  unfold Json.read
  split
  · exact absurd rfl (hmark _)
  · simp only [hvalue, bind, Except.bind, hafter]
    rfl

end Unroll.Json
