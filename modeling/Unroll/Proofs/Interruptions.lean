import Unroll.Proofs.Destination
import Unroll.Proofs.Sessions
import Unroll.Proofs.Simulation

/-!
# Inputs that fail

An input may fail in the middle of anything. The readers then give up at once, and what they have
read so far is lost, but not the macros that were bound. How far they have come is how far the
machine gets without knowing what would have followed.

* `Machine.starved`, `Machine.interrupted` — where the machine has to know what follows;
* `Machine.exists_iterate_extend` — it gets there whatever follows;
* `Machine.Onward` — a machine gets where another one does;
* `Lexer.Comes`, `Lexer.Fails` — what a reader, or the reader of programs, comes to before an input
  that fails;
* `fault_wins` — nothing but the fault is reported for an input that fails, unless groups and
  definitions are nested too deeply before that.
-/

namespace Unroll

/-- A run of digits that has found its end is the same whatever follows. -/
theorem Lexer.digits_append {rest : List Char} (h : rest.dropWhile isDigit ≠ []) (s : List Char) :
    (rest ++ s).takeWhile isDigit = rest.takeWhile isDigit ∧
      (rest ++ s).dropWhile isDigit = rest.dropWhile isDigit ++ s := by
  have hdigits := isDigit_of_mem_takeWhile (s := rest)
  have hend : ∀ c ∈ (rest.dropWhile isDigit ++ s).head?, isDigit c = false := by
    rw [List.head?_append_of_ne_nil _ h]
    exact isDigit_head?_dropWhile
  have hsplit : rest ++ s = rest.takeWhile isDigit ++ (rest.dropWhile isDigit ++ s) := by
    rw [← List.append_assoc, List.takeWhile_append_dropWhile]
  rw [hsplit, takeWhile_digits hdigits hend, dropWhile_digits hdigits hend]
  exact ⟨rfl, rfl⟩

namespace Machine

/-! ### Machines that have to know what follows -/

/-- What the next step is depends on what follows: nothing is left, or a number, a definition or an
escape has begun and may go on. -/
def starved (config : Config) : Machine → Bool
  | ⟨⟨[], _, _⟩, _⟩ => true
  | ⟨⟨c :: s, _, macros⟩, _⟩ =>
    (macros.lookup c).isNone &&
      match config.roleOf c with
      | some .numberPrefix => s.all Lexer.isDigit
      | some .macroPrefix | some .escapePrefix => s.isEmpty
      | _ => false

/-- One step, if it does not depend on what follows. -/
def feed (config : Config) (m : Machine) : Machine :=
  if m.starved config then m else m.step config

/-- How far the machine gets without knowing what follows. -/
def interrupted (config : Config) (m : Machine) : Machine :=
  (feed config)^[m.cursor.rest.length] m

/-- The machine before more characters. -/
def extend (s : List Char) (m : Machine) : Machine :=
  { m with cursor := { m.cursor with rest := m.cursor.rest ++ s } }

section

variable {config : Config} {depth : Nat} {m : Machine}

theorem rest_ne_nil (h : m.starved config = false) : m.cursor.rest ≠ [] := by
  obtain ⟨⟨rest, p, macros⟩, stack⟩ := m
  rintro rfl
  cases h

theorem feed_of_starved (h : m.starved config = true) : m.feed config = m := if_pos h

theorem feed_of_not_starved (h : m.starved config = false) : m.feed config = m.step config := by
  rw [feed, h]
  exact if_neg Bool.false_ne_true

theorem shrinks_feed (config : Config) : Shrinks (feed config) := by
  intro m
  rcases h : m.starved config with _ | _
  · rw [feed_of_not_starved h]
    exact .inr (length_step_lt config (rest_ne_nil h))
  · exact .inl (feed_of_starved h)

theorem interrupted_of_starved (h : m.starved config = true) : m.interrupted config = m :=
  Function.iterate_fixed (feed_of_starved h) _

theorem interrupted_step (h : m.starved config = false) :
    (m.step config).interrupted config = m.interrupted config := by
  rw [← feed_of_not_starved h]
  exact (shrinks_feed config).iterate_apply m

/-- The machine goes on until it has to know what follows. -/
theorem starved_interrupted (config : Config) (m : Machine) :
    (m.interrupted config).starved config = true := by
  rcases h : (m.interrupted config).starved config with _ | _
  · have hlt := length_step_lt config (rest_ne_nil h)
    rw [← feed_of_not_starved h, interrupted,
      (shrinks_feed config).apply_iterate (Nat.le_refl _)] at hlt
    exact absurd hlt (Nat.lt_irrefl _)
  · rfl

/-! ### What follows -/

theorem extend_mk (s rest : List Char) (p : Position) (macros : MacroTable) (stack : Stack) :
    extend s ⟨⟨rest, p, macros⟩, stack⟩ = ⟨⟨rest ++ s, p, macros⟩, stack⟩ := rfl

theorem extend_deliver (s : List Char) (t : Token) (m : Machine) :
    (m.deliver t).extend s = (m.extend s).deliver t := by
  obtain ⟨cursor, stack⟩ := m
  cases stack <;> rfl

theorem extend_hand (s : List Char) (r : Except Rejection Token) (m : Machine) :
    (m.hand r).extend s = (m.extend s).hand r := by
  cases r with
  | ok t => exact extend_deliver s t m
  | error _ => rfl

theorem extend_close (config : Config) (s : List Char) (cursor : Cursor) (stack : Stack) :
    (close config cursor stack).extend s =
      close config { cursor with rest := cursor.rest ++ s } stack := by
  induction stack with
  | top _ => rfl
  | group _ _ _ => exact extend_hand ..
  | pending _ _ ih => exact ih

/-- A step that does not depend on what follows is the same whatever follows. -/
theorem step_extend (h : m.starved config = false) (s : List Char) :
    (m.extend s).step config = (m.step config).extend s := by
  obtain ⟨⟨rest, p, macros⟩, stack⟩ := m
  rcases rest with _ | ⟨c, rest⟩
  · cases h
  rcases hlookup : macros.lookup c with _ | t
  · rcases hrole : config.roleOf c with _ | role
    · simp only [extend_mk, List.cons_append, step, hlookup, hrole]
    cases role with
    | operator =>
      simp only [extend_mk, List.cons_append, step, hlookup, hrole]
      rw [extend_deliver, extend_mk]
    | groupStart => simp only [extend_mk, List.cons_append, step, hlookup, hrole]
    | groupEnd =>
      simp only [extend_mk, List.cons_append, step, hlookup, hrole]
      rw [extend_close]
    | numberPrefix =>
      have hrun : rest.dropWhile Lexer.isDigit ≠ [] := by
        simpa [starved, hlookup, hrole] using h
      obtain ⟨htake, hdrop⟩ := Lexer.digits_append hrun s
      simp only [extend_mk, List.cons_append, step, hlookup, hrole, htake, hdrop]
      rw [extend_hand, extend_mk]
    | macroPrefix =>
      rcases rest with _ | ⟨a, rest⟩
      · simp [starved, hlookup, hrole] at h
      · simp only [extend_mk, List.cons_append, step, hlookup, hrole]
    | escapePrefix =>
      rcases rest with _ | ⟨e, rest⟩
      · simp [starved, hlookup, hrole] at h
      · simp only [extend_mk, List.cons_append, step, hlookup, hrole]
  · simp only [extend_mk, List.cons_append, step, hlookup]
    rw [extend_deliver, extend_mk]

/-- Whatever follows, the machine comes through the state that it reaches without knowing. -/
theorem exists_iterate_extend (config : Config) (m : Machine) (s : List Char) :
    ∃ n, (step config)^[n] (m.extend s) = (m.interrupted config).extend s := by
  have hfed : ∀ k (m : Machine), ∃ n,
      (step config)^[n] (m.extend s) = ((feed config)^[k] m).extend s := by
    intro k
    induction k with
    | zero => exact fun m => ⟨0, rfl⟩
    | succ k ih =>
      intro m
      rw [Function.iterate_succ_apply]
      rcases h : m.starved config with _ | _
      · obtain ⟨n, hn⟩ := ih (m.step config)
        refine ⟨n + 1, ?_⟩
        rw [Function.iterate_succ_apply, step_extend h, hn, feed_of_not_starved h]
      · rw [feed_of_starved h]
        exact ih m
  exact hfed _ m

/-! ### Readers at work -/

/-- Where the machine has to know what follows it has come to the end, if nothing does. -/
theorem step_of_starved (h : m.starved config = true) :
    (m.step config).cursor.rest = [] ∧ (m.step config).stack.height ≤ m.stack.height := by
  obtain ⟨⟨rest, p, macros⟩, stack⟩ := m
  rcases rest with _ | ⟨c, rest⟩
  · exact ⟨rfl, Nat.le_refl _⟩
  rcases hlookup : macros.lookup c with _ | t
  · rcases hrole : config.roleOf c with _ | role
    · simp [starved, hlookup, hrole] at h
    cases role with
    | operator => simp [starved, hlookup, hrole] at h
    | groupStart => simp [starved, hlookup, hrole] at h
    | groupEnd => simp [starved, hlookup, hrole] at h
    | numberPrefix =>
      have hrun : rest.dropWhile Lexer.isDigit = [] := by
        simpa [starved, hlookup, hrole] using h
      simp only [step, hlookup, hrole]
      exact ⟨(rest_hand ..).trans hrun, height_hand_le ..⟩
    | macroPrefix =>
      obtain rfl : rest = [] := by simpa [starved, hlookup, hrole] using h
      simp only [step, hlookup, hrole]
      exact ⟨rfl, stack.height_note_le _⟩
    | escapePrefix =>
      obtain rfl : rest = [] := by simpa [starved, hlookup, hrole] using h
      simp only [step, hlookup, hrole]
      exact ⟨trivial, Nat.le_refl _⟩
  · simp [starved, hlookup] at h

theorem fits_of_starved (h : m.starved config = true) :
    m.Fits config depth ↔ m.readers config ≤ depth := by
  obtain ⟨hrest, hheight⟩ := step_of_starved h
  rw [fits_step]
  refine and_iff_left_of_imp fun hreaders => ?_
  have hle := height_le_readers config m
  rw [fits_of_nil hrest]
  omega

/-! ### Going on -/

/-- One machine gets where another one does, and each fits if the other does. -/
structure Onward (config : Config) (depth : Nat) (m m' : Machine) : Prop where
  interrupted : m.interrupted config = m'.interrupted config
  fits : m.Fits config depth ↔ m'.Fits config depth

theorem Onward.trans {m₁ m₂ m₃ : Machine} (h₁ : Onward config depth m₁ m₂)
    (h₂ : Onward config depth m₂ m₃) : Onward config depth m₁ m₃ :=
  ⟨h₁.interrupted.trans h₂.interrupted, h₁.fits.trans h₂.fits⟩

theorem Onward.of_step {m' : Machine} (h : m.starved config = false)
    (hagree : Agree config depth m m') (hstep : m.step config = m') :
    Onward config depth m m' := by
  refine ⟨?_, hagree.fits⟩
  rw [← hstep, interrupted_step h]

variable {c : Char} {s : List Char} {p : Position} {macros : MacroTable} {stack : Stack}

theorem Onward.of_bound {t : Token} (h : macros.lookup c = some t)
    (hroom : 2 * stack.height < depth) :
    Onward config depth ⟨⟨c :: s, p, macros⟩, stack⟩
      (deliver t ⟨⟨s, p.advance c, macros⟩, stack⟩) := by
  refine .of_step ?_ (.of_bound h hroom) ?_
  · simp [starved, h]
  · simp only [step, h]

theorem Onward.of_acts {m' : Machine} {role : Option Role} (h : Acts config macros c role)
    (hrole : role ≠ some .macroPrefix) (hroom : 2 * stack.height < depth)
    (hstarved : starved config ⟨⟨c :: s, p, macros⟩, stack⟩ = false)
    (hstep : step config ⟨⟨c :: s, p, macros⟩, stack⟩ = m') :
    Onward config depth ⟨⟨c :: s, p, macros⟩, stack⟩ m' :=
  .of_step hstarved (.of_acts h hrole hroom hstep) hstep

theorem Onward.of_macroPrefix (h : Acts config macros c (some .macroPrefix)) (a : Char)
    (s : List Char) (p : Position) (hroom : 2 * stack.height < depth) :
    Onward config depth ⟨⟨c :: a :: s, p, macros⟩, stack⟩
      ⟨⟨s, (p.advance c).advance a, macros⟩, .pending a stack⟩ := by
  refine .of_step ?_ (.of_macroPrefix h a s p hroom) ?_
  · simp [starved, h.unbound, h.role]
  · simp only [step, h.unbound, h.role]

end

end Machine

/-! ### Readers before an input that fails -/

namespace Lexer

open Machine in
/-- What a reader comes to before an input that fails with `f`. It stands where the machine does,
and was called on the stack. It has an outcome that does not depend on what follows, or finds the
groups and definitions too deep, or it meets the fault. -/
inductive Comes (config : Config) (depth : Nat) (f : Fault) (m : Machine) (stack : Stack) :
    Except Failure Item × Lexer → Prop where
  | outcome {o : Outcome} {after : Cursor} {l : Lexer} (ho : o ≠ .inputEnd ∧ o ≠ .tooDeep)
      (hl : l.Stands after (.fault f)) (hless : after.rest.length < m.cursor.rest.length)
      (h : Onward config depth m (resume config ⟨after, stack⟩ o)) :
      Comes config depth f m stack (o.result, l)
  | tooDeep {l : Lexer} (h : ¬ m.Fits config depth) :
      Comes config depth f m stack (.error .tooDeep, l)
  | broken {l : Lexer} {p : Position} (h : m.Fits config depth)
      (hl : l.At ⟨[], p, (m.interrupted config).cursor.macros⟩) :
      Comes config depth f m stack (.error (.input f), l)

section

variable {config : Config} {depth : Nat} {f : Fault} {m m' : Machine} {stack : Stack}

/-- What a machine that gets further on comes to, the machine before it comes to. -/
theorem Comes.of_onward {read : Except Failure Item × Lexer}
    (h : Comes config depth f m' stack read) (honward : Machine.Onward config depth m m')
    (hle : m'.cursor.rest.length ≤ m.cursor.rest.length) :
    Comes config depth f m stack read := by
  cases h with
  | outcome ho hl hless h => exact .outcome ho hl (by omega) (honward.trans h)
  | tooDeep h => exact .tooDeep fun hfits => h (honward.fits.1 hfits)
  | broken h hl =>
    rw [← honward.interrupted] at hl
    exact .broken (honward.fits.2 h) hl

/-- Where the machine has to know what follows, a reader that fits meets the fault. -/
theorem Comes.of_starved {l : Lexer} {p : Position} (h : m.starved config = true)
    (hreaders : m.readers config ≤ depth) (hl : l.At ⟨[], p, m.cursor.macros⟩) :
    Comes config depth f m stack (.error (.input f), l) := by
  refine .broken ((Machine.fits_of_starved h).2 hreaders) (p := p) ?_
  rwa [Machine.interrupted_of_starved h]

/-- With so many steps, the reader of items comes to what the machine does. -/
def ItemComes (config : Config) (f : Fault) (steps : Nat) : Prop :=
  ∀ (d depth : Nat) (stack : Stack) (l : Lexer) (c : Cursor), l.Stands c (.fault f) →
    2 * c.rest.length + 1 ≤ steps → d + 2 * stack.height = depth →
    Comes config depth f ⟨c, stack⟩ stack (itemIn config steps d l)

/-- The result of a reader of groups, as that of a reader of items. -/
def asItem (read : Except Failure Token × Lexer) : Except Failure Item × Lexer :=
  (read.1.map .token, read.2)

/-- With so many steps, the reader of groups comes to what the machine does. -/
def GroupComes (config : Config) (f : Fault) (steps : Nat) : Prop :=
  ∀ (d depth : Nat) (stack : Stack) (l : Lexer) (c : Cursor) (ts : List Token)
    (ds : List Diagnostic), l.Stands c (.fault f) →
    2 * c.rest.length + 2 ≤ steps → d + 1 + 2 * stack.height = depth →
    Comes config depth f ⟨c, .group ⟨ts.reverse, ds.reverse⟩ stack⟩ stack
      (asItem (groupIn config steps d ts ds l))

theorem Stands.bindMacro {l : Lexer} {s : List Char} {p : Position} {macros : MacroTable}
    {e : Ending} (h : l.Stands ⟨s, p, macros⟩ e) (symbol : Char) (body : Token) :
    (l.bindMacro symbol body).Stands ⟨s, p, macros.bind symbol body⟩ e :=
  ⟨h.rest, h.position, congrArg (·.bind symbol body) h.macros, h.ending⟩

variable {steps d : Nat} {l : Lexer} {c : Char} {s : List Char} {p : Position}
  {macros : MacroTable}

open Machine in
/-- After a macro prefix that acts as such, a reader comes to what it does in the body or after the
definition. -/
theorem Stands.definition (ih : ∀ k ≤ steps, ItemComes config f k)
    (h : l.Stands ⟨c :: s, p, macros⟩ (.fault f)) (hacts : Acts config macros c (some .macroPrefix))
    (hsteps : 2 * (s.length + 1) ≤ steps) (hdepth : d + 1 + 2 * stack.height = depth) :
    Comes config depth f ⟨⟨c :: s, p, macros⟩, stack⟩ stack
      (itemIn config (steps + 1) (d + 1) l) := by
  obtain ⟨l₁, hnext₁, h₁⟩ := h.next_cons
  have hunbound : l₁.macros.lookup c = none := by rw [h₁.macros, hacts.unbound]
  obtain ⟨steps, rfl⟩ : ∃ k, steps = k + 1 := ⟨steps - 1, by omega⟩
  rw [itemIn]
  simp only [hnext₁, hunbound, hacts.role]
  rcases d with _ | d
  · simp only [definitionIn]
    refine .tooDeep (Reads.not_fits_definition hacts ?_)
    omega
  rcases s with _ | ⟨a, s⟩
  · -- the definition takes one reader more than an item where the symbol would stand
    obtain ⟨l₂, hnext₂, h₂⟩ := h₁.next_fault
    simp only [definitionIn, hnext₂]
    refine .of_starved ?_ ?_ h₂
    · simp [starved, hacts.unbound, hacts.role]
    · rw [readers_of_symbolMissing hacts]
      omega
  · obtain ⟨l₂, hnext₂, h₂⟩ := h₁.next_cons
    simp only [List.length_cons] at hsteps
    have hroom : 2 * stack.height < depth := by omega
    have hsymbol := Onward.of_macroPrefix hacts a s p hroom
    have hcomes := ih steps (Nat.le_succ _) d depth (.pending a stack) l₂ _ h₂
      (by simp only; omega) (by simp only [Stack.height]; omega)
    have hbody := hcomes.of_onward hsymbol (by simp only [List.length_cons]; omega)
    simp only [definitionIn, hnext₂]
    generalize itemIn config steps d l₂ = read at hbody
    cases hbody with
    | @outcome o after l₃ ho hl hless hresume =>
      cases o with
      | inputEnd => exact absurd rfl ho.1
      | tooDeep => exact absurd rfl ho.2
      | groupEnd => exact .outcome ho hl hless hresume
      | rejected r => exact .outcome ho hl hless hresume
      | token t =>
        -- the item after the definition is read with one step more than the body was
        simp only [List.length_cons] at hless
        have hnext := ih (steps + 1) (Nat.le_refl _) (d + 2) depth stack _ _ (hl.bindMacro a t)
          (by simp only; omega) (by omega)
        exact hnext.of_onward hresume (by simp only [List.length_cons]; omega)
    | tooDeep hdeep => exact .tooDeep hdeep
    | broken hfits hl => exact .broken hfits hl

/-- A number comes to what stands behind its prefix, if its end does. -/
theorem Stands.number (h : l.Stands ⟨s, p.advance c, macros⟩ (.fault f))
    (hacts : Acts config macros c (some .numberPrefix)) (hsteps : s.length < steps)
    (hroom : 2 * stack.height < depth) :
    Comes config depth f ⟨⟨c :: s, p, macros⟩, stack⟩ stack
      (asItem (Lexer.numberIn config steps l)) := by
  by_cases hrun : s.dropWhile isDigit = []
  · obtain ⟨l₁, hread, h₁⟩ := h.numberIn_fault config hsteps hrun
    rw [hread]
    refine .of_starved ?_ ?_ h₁
    · have hdigits := List.dropWhile_eq_nil_iff.1 hrun
      simpa [Machine.starved, hacts.unbound, hacts.role] using hdigits
    · rw [Machine.readers_of_acts hacts (by decide)]
      exact hroom
  · obtain ⟨l₁, hread, h₁⟩ := h.numberIn config hsteps (.inr hrun)
    have hdrop := (List.dropWhile_suffix (l := s) isDigit).length_le
    rw [hread, asItem, ← Outcome.result_of]
    refine .outcome ⟨Outcome.of_ne_inputEnd _, Outcome.of_ne_tooDeep _⟩ h₁ ?_ ?_
    · simp only [List.length_cons]
      omega
    · refine .of_acts hacts (by decide) hroom ?_ ?_
      · simpa [Machine.starved, hacts.unbound, hacts.role] using hrun
      · simp only [Machine.step, hacts.unbound, hacts.role, Machine.resume_of]

open Machine in
/-- At a character that is not bound, a reader comes to what it does afterwards. -/
theorem Stands.unbound (ih : ∀ k ≤ steps, ItemComes config f k)
    (ihGroup : GroupComes config f steps) (h : l.Stands ⟨c :: s, p, macros⟩ (.fault f))
    (hbound : macros.lookup c = none) (hsteps : 2 * (s.length + 1) ≤ steps)
    (hdepth : d + 1 + 2 * stack.height = depth) :
    Comes config depth f ⟨⟨c :: s, p, macros⟩, stack⟩ stack
      (itemIn config (steps + 1) (d + 1) l) := by
  obtain ⟨l₁, hnext, h₁⟩ := h.next_cons
  have hmacros : l₁.macros = macros := h₁.macros
  have hroom : 2 * stack.height < depth := by omega
  rcases hrole : config.roleOf c with _ | role
  · have hacts : Acts config macros c none := ⟨hbound, hrole⟩
    have hcomes := ih steps (Nat.le_refl _) (d + 1) depth stack l₁ _ h₁ (by simp only; omega) hdepth
    rw [itemIn]
    simp only [hnext, hmacros, hbound, hrole]
    refine hcomes.of_onward (.of_acts hacts (by decide) hroom ?_ ?_) (by simp)
    · simp [starved, hbound, hrole]
    · simp only [step, hbound, hrole]
  cases role with
  | operator =>
    have hacts : Acts config macros c (some .operator) := ⟨hbound, hrole⟩
    rw [itemIn]
    simp only [hnext, hmacros, hbound, hrole]
    refine .outcome (o := .token _) (by simp) h₁ (by simp) ?_
    refine .of_acts hacts (by decide) hroom ?_ ?_
    · simp [starved, hbound, hrole]
    · simp only [step, hbound, hrole, resume]
  | groupEnd =>
    have hacts : Acts config macros c (some .groupEnd) := ⟨hbound, hrole⟩
    rw [itemIn]
    simp only [hnext, hmacros, hbound, hrole]
    refine .outcome (o := .groupEnd) (by simp) h₁ (by simp) ?_
    refine .of_acts hacts (by decide) hroom ?_ ?_
    · simp [starved, hbound, hrole]
    · simp only [step, hbound, hrole, resume]
  | macroPrefix => exact Stands.definition ih h ⟨hbound, hrole⟩ hsteps hdepth
  | escapePrefix =>
    have hacts : Acts config macros c (some .escapePrefix) := ⟨hbound, hrole⟩
    rw [itemIn]
    simp only [hnext, hmacros, hbound, hrole]
    rcases s with _ | ⟨e, s⟩
    · obtain ⟨l₂, hnext₂, h₂⟩ := h₁.next_fault
      simp only [hnext₂]
      refine .of_starved ?_ ?_ h₂
      · simp [starved, hbound, hrole]
      · rw [readers_of_acts hacts (by decide)]
        exact hroom
    · obtain ⟨l₂, hnext₂, h₂⟩ := h₁.next_cons
      simp only [List.length_cons] at hsteps
      have hcomes :=
        ih steps (Nat.le_refl _) (d + 1) depth stack l₂ _ h₂ (by simp only; omega) hdepth
      simp only [hnext₂]
      refine hcomes.of_onward (.of_acts hacts (by decide) hroom ?_ ?_) (by simp; omega)
      · simp [starved, hbound, hrole]
      · simp only [step, hbound, hrole]
  | numberPrefix =>
    have hcomes := h₁.number ⟨hbound, hrole⟩ (by omega : s.length < steps) hroom
    rw [itemIn]
    simp only [hnext, hmacros, hbound, hrole]
    rcases hread : Lexer.numberIn config steps l₁ with ⟨_ | _, _⟩ <;> rwa [hread] at hcomes
  | groupStart =>
    have hacts : Acts config macros c (some .groupStart) := ⟨hbound, hrole⟩
    have hcomes := ihGroup d depth stack l₁ _ [] [] h₁ (by simp only; omega) hdepth
    have hgroup : Comes config depth f ⟨⟨c :: s, p, macros⟩, stack⟩ stack
        (asItem (groupIn config steps d [] [] l₁)) := by
      refine hcomes.of_onward (.of_acts hacts (by decide) hroom ?_ ?_) (by simp)
      · simp [starved, hbound, hrole]
      · simp only [step, hbound, hrole]
        rfl
    rw [itemIn]
    simp only [hnext, hmacros, hbound, hrole]
    rcases hread : groupIn config steps d [] [] l₁ with ⟨_ | _, _⟩ <;> rwa [hread] at hgroup

/-- The reader of items comes to what the machine does if all readers do with fewer steps. -/
theorem itemComes_succ (ih : ∀ k ≤ steps, ItemComes config f k)
    (ihGroup : GroupComes config f steps) : ItemComes config f (steps + 1) := by
  rintro d depth stack l ⟨rest, p, macros⟩ h hsteps hdepth
  rcases d with _ | d
  · simp only [itemIn]
    refine .tooDeep (Machine.not_fits ?_)
    simp only
    omega
  rcases rest with _ | ⟨c, s⟩
  · obtain ⟨l₁, hnext, h₁⟩ := h.next_fault
    rw [itemIn]
    simp only [hnext]
    refine .of_starved rfl ?_ h₁
    simp only [Machine.readers]
    omega
  simp only [List.length_cons] at hsteps
  rcases hbound : macros.lookup c with _ | t
  · exact Stands.unbound ih ihGroup h hbound (by omega) hdepth
  · obtain ⟨l₁, hnext, h₁⟩ := h.next_cons
    have hmacros : l₁.macros = macros := h₁.macros
    rw [itemIn]
    simp only [hnext, hmacros, hbound]
    exact .outcome (o := .token t) (by simp) h₁ (by simp) (.of_bound hbound (by omega))

open Machine in
/-- The reader of groups comes to what the machine does if all readers do with fewer steps. -/
theorem groupComes_succ (ih : ItemComes config f steps) (ihGroup : GroupComes config f steps) :
    GroupComes config f (steps + 1) := by
  intro d depth stack l c ts ds h hsteps hdepth
  rcases d with _ | d
  · simp only [groupIn, asItem]
    refine .tooDeep (not_fits ?_)
    simp only [Stack.height]
    omega
  have hitem := ih d depth (.group ⟨ts.reverse, ds.reverse⟩ stack) l c h (by omega)
    (by simp only [Stack.height]; omega)
  rw [groupIn]
  generalize itemIn config steps d l = read at hitem
  cases hitem with
  | @outcome o after l₁ ho hl hless hresume =>
    have hposition : l₁.position = after.position := hl.position
    have hle : after.rest.length < c.rest.length := hless
    cases o with
    | inputEnd => exact absurd rfl ho.1
    | tooDeep => exact absurd rfl ho.2
    | token t =>
      have hnext := ihGroup (d + 1) depth stack l₁ after (t :: ts) ds hl (by omega) (by omega)
      rw [List.reverse_cons] at hnext
      exact hnext.of_onward hresume (Nat.le_of_lt hle)
    | rejected r =>
      have hnext := ihGroup (d + 1) depth stack l₁ after ts (r.diagnostics.reverse ++ ds) hl
        (by omega) (by omega)
      rw [List.reverse_append, List.reverse_reverse] at hnext
      exact hnext.of_onward hresume (Nat.le_of_lt hle)
    | groupEnd =>
      simp only [Outcome.result, asItem]
      rw [finishGroup_eq, ← Outcome.result_of, hposition]
      refine .outcome ⟨Outcome.of_ne_inputEnd _, Outcome.of_ne_tooDeep _⟩ hl hless ?_
      rw [resume_of]
      exact hresume
  | tooDeep hdeep => exact .tooDeep hdeep
  | broken hfits hl => exact .broken hfits hl

/-- With enough steps for the characters that are left, the readers come to what the machine
does. -/
theorem comes (config : Config) (f : Fault) (steps : Nat) :
    (∀ k ≤ steps, ItemComes config f k) ∧ GroupComes config f steps := by
  induction steps with
  | zero =>
    refine ⟨fun k hk d depth stack l c _ hsteps => ?_,
      fun d depth stack l c ts ds _ hsteps => ?_⟩ <;> omega
  | succ steps ih =>
    -- as where the input does not fail, items need all smaller numbers of steps
    obtain ⟨ihItem, ihGroup⟩ := ih
    refine ⟨fun k hk => ?_, groupComes_succ (ihItem steps (Nat.le_refl _)) ihGroup⟩
    rcases Nat.le_succ_iff.1 hk with hk | rfl
    · exact ihItem k hk
    · exact itemComes_succ ihItem ihGroup

/-! ### Whole programs -/

/-- Reading a whole program before an input that fails with `f` comes to the fault, at the end and
with the macros of the machine, if groups and definitions fit, and does not get that far if they do
not. -/
structure Fails (config : Config) (depth : Nat) (f : Fault) (m : Machine)
    (read : Except Failure (List Token) × Lexer) : Prop where
  broken (h : m.Fits config depth) :
    read.1 = .error (.input f) ∧
      ∃ p, read.2.At ⟨[], p, (m.interrupted config).cursor.macros⟩
  tooDeep (h : ¬ m.Fits config depth) : read.1 = .error .tooDeep

theorem Fails.of_onward {read : Except Failure (List Token) × Lexer}
    (h : Fails config depth f m' read) (honward : Machine.Onward config depth m m') :
    Fails config depth f m read where
  broken hfits := by
    rw [honward.interrupted]
    exact h.broken (honward.fits.1 hfits)
  tooDeep hnot := h.tooDeep fun hfits => hnot (honward.fits.2 hfits)

theorem Stands.allIn {cursor : Cursor} {rounds : Nat} (depth : Nat) (ts : List Token)
    (ds : List Diagnostic) (h : l.Stands cursor (.fault f))
    (hsteps : 2 * cursor.rest.length + 1 ≤ steps) (hrounds : cursor.rest.length < rounds) :
    Fails config depth f ⟨cursor, .top ⟨ts.reverse, ds.reverse⟩⟩
      (Lexer.allIn config steps depth rounds ts ds l) := by
  -- every outcome before the fault consumes a character, so that the rounds suffice
  induction rounds generalizing l cursor ts ds with
  | zero => omega
  | succ rounds ih =>
    have hitem := (comes config f steps).1 steps (Nat.le_refl _) depth depth
      (.top ⟨ts.reverse, ds.reverse⟩) l cursor h hsteps rfl
    rw [Lexer.allIn, tokenIn]
    generalize itemIn config steps depth l = read at hitem
    cases hitem with
    | @outcome o after l₁ ho hl hless hresume =>
      have hle : after.rest.length < cursor.rest.length := hless
      cases o with
      | inputEnd => exact absurd rfl ho.1
      | tooDeep => exact absurd rfl ho.2
      | token t =>
        have hnext := ih (t :: ts) ds hl (by omega) (by omega)
        rw [List.reverse_cons] at hnext
        exact hnext.of_onward hresume
      | rejected r =>
        have hnext := ih ts (r.diagnostics.reverse ++ ds) hl (by omega) (by omega)
        rw [List.reverse_append, List.reverse_reverse] at hnext
        exact hnext.of_onward hresume
      | groupEnd =>
        have hposition : l₁.position = after.position := hl.position
        have hnext := ih ts (⟨after.position, unopened config⟩ :: ds) hl (by omega) (by omega)
        rw [List.reverse_cons] at hnext
        simp only [Outcome.result, reject, rejectAt, hposition]
        exact hnext.of_onward hresume
    | tooDeep hdeep => exact ⟨fun hfits => absurd hfits hdeep, fun _ => rfl⟩
    | broken hfits hl => exact ⟨fun _ => ⟨rfl, _, hl⟩, fun hnot => absurd hfits hnot⟩

theorem Stands.readAll {cursor : Cursor} (h : l.Stands cursor (.fault f)) (config : Config)
    (depth : Nat) :
    Fails config depth f ⟨cursor, .top .empty⟩ (l.readAll config depth) := by
  have hlength := h.length_le
  exact h.allIn depth [] [] (by omega) (by omega)

/-- What was read has the position after the characters that the input gave. -/
theorem Stands.position_readAll {given : List Char} {macros : MacroTable}
    (h : l.Stands ⟨given, .start, macros⟩ (.fault f)) (config : Config) (depth : Nat)
    {p : Position} {macros' : MacroTable}
    (hafter : (l.readAll config depth).2.At ⟨[], p, macros'⟩) :
    (l.readAll config depth).2.position = Position.start.advanceBy given := by
  obtain ⟨consumed, hconsumed⟩ :=
    ((keeps_consumes config l).allIn l.steps depth l.steps ⟨[], .nothing⟩ (List.forall_mem_nil _)
      (List.forall_mem_nil _)).state
  have hleft := hconsumed.left
  have hnil : (l.readAll config depth).2.lookahead.toList ++
      (l.readAll config depth).2.source.left = [] := hafter.rest
  rw [h.rest, List.append_assoc] at hleft
  rw [Lexer.readAll] at hnil ⊢
  rw [hnil, List.append_nil] at hleft
  rw [hconsumed.position, h.position, ← hleft]

end

end Lexer

/-- From a stream that fails nothing is read but its fault, or that groups and definitions are too
deep before that. -/
theorem tokenize_fails (config : Config) (depth : Nat) (given : List Char) (f : Fault) :
    ((Machine.start given).Fits config depth →
      (tokenize config depth ⟨given, .fault f⟩).1 = .error (.ofInput f)) ∧
    (¬ (Machine.start given).Fits config depth →
      (tokenize config depth ⟨given, .fault f⟩).1 = .error (.error (.tooDeep "read"))) := by
  have hfails := (Lexer.stands_ofStream ⟨given, .fault f⟩).readAll config depth
  refine ⟨fun hfits => ?_, fun hdeep => ?_⟩
  · simp only [tokenize, (hfails.broken hfits).1]
    rfl
  · simp only [tokenize, hfails.tooDeep hdeep]
    rfl

/-- How an input is treated that gives some characters and then fails with `f`. -/
structure FaultWins (config : Config) (depth : Nat) (given : List Char) (f : Fault) : Prop where
  /-- the lexer reports the fault if groups and definitions fit, whatever is wrong in them -/
  result (h : (Machine.start given).Fits config depth) :
    ((Lexer.ofSource (.ofText given (.fault f))).readAll config depth).1 = .error (.input f)
  /-- it has counted the lines and columns of all the characters, and of no others -/
  position (h : (Machine.start given).Fits config depth) :
    ((Lexer.ofSource (.ofText given (.fault f))).readAll config depth).2.position.line =
        1 + given.count '\n' ∧
      ((Lexer.ofSource (.ofText given (.fault f))).readAll config depth).2.position.column =
        (given.rtakeWhile (· ≠ '\n')).length
  /-- it has the macros that the machine binds without knowing what would have followed -/
  macros (h : (Machine.start given).Fits config depth) :
    ((Lexer.ofSource (.ofText given (.fault f))).readAll config depth).2.macros =
      ((Machine.start given).interrupted config).cursor.macros
  /-- whatever follows, the machine comes there -/
  common (rest : List Char) :
    ∃ n, (Machine.step config)^[n] (Machine.start (given ++ rest)) =
      ((Machine.start given).interrupted config).extend rest
  /-- and there it cannot go on without knowing -/
  starved : ((Machine.start given).interrupted config).starved config = true
  /-- a fault that is expected of streams is an error of the input, and any other is passed on; the
  one thing that is no fault here is named with `Fault.unannounced` -/
  tokenized (h : (Machine.start given).Fits config depth) :
    (tokenize config depth ⟨given, .fault f⟩).1 =
      .error (if f.isExpected then .error (.input [] (some f)) else .fault f)
  /-- if groups and definitions do not fit, that is reported -/
  tooDeep (h : ¬ (Machine.start given).Fits config depth) :
    ((Lexer.ofSource (.ofText given (.fault f))).readAll config depth).1 = .error .tooDeep ∧
      (tokenize config depth ⟨given, .fault f⟩).1 = .error (.error (.tooDeep "read"))
  /-- it takes a character for every two readers at work until they do not fit -/
  fits (h : 2 * given.length < depth) : (Machine.start given).Fits config depth
  /-- whether they fit or not, nothing is written, wherever the input comes from -/
  untouched (files : Files) (origin : Origin) (target : Target) (lineWidth : Option Int)
      (hopen : origin.open? files = .ok ⟨given, .fault f⟩) :
    (∃ e, (preprocess files depth origin target config lineWidth).result = .error e) ∧
      (preprocess files depth origin target config lineWidth).files = files ∧
      (preprocess files depth origin target config lineWidth).target = target

/-- Wherever an input fails, no tokens and no syntax errors are reported, but its fault, unless
groups and definitions are nested too deeply before that. -/
theorem fault_wins (config : Config) (depth : Nat) (text : List Char) (k : Nat) (f : Fault) :
    FaultWins config depth (text.take k) f := by
  generalize text.take k = given
  have hstands := Lexer.stands_ofText given (.fault f)
  have hfails := hstands.readAll config depth
  obtain ⟨hbroken, hdeep⟩ := tokenize_fails config depth given f
  constructor
  case result => exact fun hfits => (hfails.broken hfits).1
  case position =>
    intro hfits
    obtain ⟨-, p, hafter⟩ := hfails.broken hfits
    rw [hstands.position_readAll config depth hafter]
    exact ⟨Position.line_advanceBy_start given, Position.column_advanceBy_start given⟩
  case macros =>
    intro hfits
    obtain ⟨-, p, hafter⟩ := hfails.broken hfits
    exact hafter.macros
  case common => exact Machine.exists_iterate_extend config (Machine.start given)
  case starved => exact Machine.starved_interrupted config _
  case tokenized => exact hbroken
  case tooDeep => exact fun hnot => ⟨hfails.tooDeep hnot, hdeep hnot⟩
  case fits =>
    intro hlength
    apply Machine.fits_of_length
    simpa only [Machine.start, Stack.height, Nat.zero_add] using hlength
  case untouched =>
    intro files origin target lineWidth hopen
    refine (preprocess_safe files depth origin target config lineWidth).untouched (.inr ?_)
    simp only [tokenizeFrom, hopen]
    by_cases hfits : (Machine.start given).Fits config depth
    · exact ⟨_, hbroken hfits⟩
    · exact ⟨_, hdeep hfits⟩

/-- The first definition is complete where the input fails, and is bound. The second may go on. -/
theorem fault_wins_in_group :
    ((Lexer.ofSource (.ofText ("$a+($b#12".toList.take 9)
        (.fault (.system "gone")))).readAll .standard Lexer.nestingLimit).1 =
      .error (.input (.system "gone")) ∧
    ((Lexer.ofSource (.ofText ("$a+($b#12".toList.take 9)
        (.fault (.system "gone")))).readAll .standard Lexer.nestingLimit).2.macros.lookup 'a' =
      some (.operator "+") ∧
    ((Lexer.ofSource (.ofText ("$a+($b#12".toList.take 9)
        (.fault (.system "gone")))).readAll .standard Lexer.nestingLimit).2.macros.lookup 'b' =
      none := by
  have hwins := fault_wins .standard Lexer.nestingLimit "$a+($b#12".toList 9 (.system "gone")
  have hfits := hwins.fits (by decide)
  refine ⟨hwins.result hfits, ?_⟩
  rw [hwins.macros hfits]
  exact ⟨rfl, rfl⟩

/-- Groups inside of each other that are too many hide the fault behind them. -/
theorem fault_hidden :
    ((Lexer.ofSource (.ofText ((List.replicate 4000 '(').take 4000)
        (.fault (.system "gone")))).readAll .standard Lexer.nestingLimit).1 = .error .tooDeep ∧
    ((Lexer.ofSource (.ofText ((List.replicate 4000 '(').take 4000)
        (.fault (.system "gone")))).readAll .standard Lexer.nestingLimit).1 ≠
      .error (.input (.system "gone")) := by
  have hrole : Config.standard.roleOf '(' = some .groupStart := rfl
  have hdeep := Machine.not_fits_groupStart hrole
    (by decide : Lexer.nestingLimit ≤ 2 * 4000) []
  rw [List.append_nil] at hdeep
  rw [List.take_of_length_le (Nat.le_of_eq List.length_replicate)]
  generalize List.replicate 4000 '(' = given at hdeep ⊢
  have hread := ((Lexer.stands_ofText given (.fault (.system "gone"))).readAll .standard
    Lexer.nestingLimit).tooDeep hdeep
  rw [hread]
  exact ⟨rfl, by simp⟩

end Unroll
