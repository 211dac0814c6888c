import Mathlib.Logic.Function.Iterate
import Unroll.Proofs.Reading

/-!
# A pushdown machine

The programs that the lexer reads by readers inside of readers are read in one pass by a machine
that keeps the open groups and the definitions without a body yet on a stack.

* `Machine.step` — the machine consumes a character, or a prefix with what belongs to it;
* `Machine.final` — what a program comes to, where the machine ends, and its macros then;
* `Machine.collected` — its tokens and its diagnostics, also where there are both;
* `Machine.Fits` — the stack never grows beyond what a number of readers at work allows;
* `Machine.fits_step`, `Machine.final_step` — both are the same after a step;
* `Machine.fits_of_length`, `Machine.not_fits_groupStart` — what always fits, and what does not.
-/

namespace Unroll

/-! ### The stack -/

/-- The stack of the machine. Below all groups and definitions lies the top of the program. -/
inductive Stack where
  | top (scope : Scope)
  | group (scope : Scope) (below : Stack)
  | pending (symbol : Char) (below : Stack)

namespace Stack

/-- The number of open groups and pending definitions. -/
def height : Stack → Nat
  | top _ => 0
  | group _ below | pending _ below => below.height + 1

/-- Diagnostics are noted in the nearest group, or at the top. The definitions pending above it
are dropped. -/
def note (ds : List Diagnostic) : Stack → Stack
  | top scope => top (scope.note ds)
  | group scope below => group (scope.note ds) below
  | pending _ below => below.note ds

/-- What was read when the input ends at `position`: a pending definition misses its body, unless
diagnostics from above have dropped it, and every open group is unclosed. -/
def unwind (config : Config) (position : Position) : List Diagnostic → Stack → Scope
  | ds, top scope => scope.note ds
  | ds, group scope below =>
    unwind config position (scope.found ++ ds ++ [⟨position, Lexer.unclosed config⟩]) below
  | [], pending _ below => unwind config position [⟨position, Lexer.macroMissing config⟩] below
  | d :: ds, pending _ below => unwind config position (d :: ds) below

theorem height_note_le (ds : List Diagnostic) (stack : Stack) :
    (stack.note ds).height ≤ stack.height := by
  induction stack with
  | top _ => exact Nat.le_refl _
  | group _ _ _ => exact Nat.le_refl _
  | pending _ _ ih => exact Nat.le_succ_of_le ih

/-- Noting diagnostics and coming to the end is coming to the end with them. -/
theorem unwind_note (config : Config) (position : Position) {ds : List Diagnostic} (hds : ds ≠ [])
    (stack : Stack) :
    (stack.note ds).unwind config position [] = stack.unwind config position ds := by
  -- without diagnostics a pending definition would miss its body, and would not be dropped
  induction stack with
  | top scope => simp only [note, unwind, Scope.note, List.append_nil]
  | group scope below _ => simp only [note, unwind, Scope.note, List.append_nil]
  | pending _ below ih =>
    obtain ⟨d, ds, rfl⟩ := List.exists_cons_of_ne_nil hds
    exact ih

end Stack

/-! ### The machine -/

/-- A state of the machine. -/
structure Machine where
  cursor : Cursor
  stack : Stack

namespace Machine

/-- The machine before a program. -/
def start (text : List Char) : Machine := ⟨⟨text, .start, .empty⟩, .top .empty⟩

/-- A token is bound by the definition that waits for it, or added to the nearest group. -/
def deliver (t : Token) : Machine → Machine
  | ⟨cursor, .top scope⟩ => ⟨cursor, .top (scope.add t)⟩
  | ⟨cursor, .group scope below⟩ => ⟨cursor, .group (scope.add t) below⟩
  | ⟨cursor, .pending a below⟩ => ⟨{ cursor with macros := cursor.macros.bind a t }, below⟩

/-- Diagnostics are noted on the stack. -/
def note (ds : List Diagnostic) (m : Machine) : Machine := { m with stack := m.stack.note ds }

/-- A token is delivered, or the diagnostics of its rejection are noted. -/
def hand (m : Machine) : Except Rejection Token → Machine
  | .ok t => m.deliver t
  | .error r => m.note r.diagnostics

/-- A group end delimiter drops the pending definitions above the nearest group, and closes the
group. -/
def close (config : Config) (cursor : Cursor) : Stack → Machine
  | .pending _ below => close config cursor below
  | .group scope below => hand ⟨cursor, below⟩ (scope.group config cursor.position)
  | .top scope => ⟨cursor, .top (scope.note [⟨cursor.position, Lexer.unopened config⟩])⟩

open Lexer in
/-- The machine consumes a character, or a prefix with what belongs to it. -/
def step (config : Config) : Machine → Machine
  | ⟨⟨[], p, m⟩, stack⟩ => ⟨⟨[], p, m⟩, stack⟩
  | ⟨⟨c :: s, p, m⟩, stack⟩ =>
    let next : Machine := ⟨⟨s, p.advance c, m⟩, stack⟩
    match m.lookup c with
    | some t => next.deliver t
    | none =>
      match config.roleOf c with
      | none => next
      | some .operator => next.deliver (.operator (String.singleton c))
      | some .groupStart => ⟨next.cursor, .group .empty stack⟩
      | some .groupEnd => close config next.cursor stack
      | some .numberPrefix =>
        let digits := s.takeWhile isDigit
        hand ⟨⟨s.dropWhile isDigit, (p.advance c).advanceBy digits, m⟩, stack⟩
          (numeral config (p.advance c) digits)
      | some .macroPrefix =>
        match s with
        | [] => next.note [⟨p.advance c, macroMissing config⟩]
        | a :: s => ⟨⟨s, (p.advance c).advance a, m⟩, .pending a stack⟩
      | some .escapePrefix =>
        match s with
        | [] => next
        | e :: s => ⟨⟨s, (p.advance c).advance e, m⟩, stack⟩

/-- The machine at the end of the input. -/
def run (config : Config) (m : Machine) : Machine := (step config)^[m.cursor.rest.length] m

/-- What a program comes to, with the position and the macros at its end. -/
def final (config : Config) (m : Machine) :
    Except Lexer.Failure (List Token) × Position × MacroTable :=
  let last := (m.run config).cursor
  (((m.run config).stack.unwind config last.position []).program, last.position, last.macros)

/-- The tokens of a program, and the diagnostics found in it. -/
def collected (config : Config) (m : Machine) : Scope :=
  (m.run config).stack.unwind config (m.run config).cursor.position []

/-- How many readers are at work inside of each other where the machine stands: one for an item,
two more for each open group and each pending definition, and one more for a definition without a
symbol. -/
def readers (config : Config) (m : Machine) : Nat :=
  2 * m.stack.height + 1 +
    match m.cursor.rest with
    | [c] =>
      if (m.cursor.macros.lookup c).isNone && config.roleOf c == some .macroPrefix then 1 else 0
    | _ => 0

/-- No more than `depth` readers are at work inside of each other while the machine runs. -/
def Fits (config : Config) (depth : Nat) (m : Machine) : Prop :=
  ∀ n, ((step config)^[n] m).readers config ≤ depth

/-! ### Coming to rest -/

/-- What either leaves a machine as it is or uses up some of what is left. -/
def Shrinks (g : Machine → Machine) : Prop :=
  ∀ m, g m = m ∨ (g m).cursor.rest.length < m.cursor.rest.length

section

variable {g : Machine → Machine} {m : Machine}

/-- The machine comes to rest within as many steps as there are characters. -/
theorem Shrinks.apply_iterate (h : Shrinks g) {n : Nat} (hn : m.cursor.rest.length ≤ n) :
    g (g^[n] m) = g^[n] m := by
  induction n generalizing m with
  | zero => exact (h m).resolve_right (by omega)
  | succ n ih =>
    rcases h m with hsame | hless
    · rw [Function.iterate_fixed hsame, hsame]
    · rw [Function.iterate_succ_apply]
      exact ih (by omega)

theorem Shrinks.iterate_eq (h : Shrinks g) {n : Nat} (hn : m.cursor.rest.length ≤ n) :
    g^[n] m = g^[m.cursor.rest.length] m := by
  obtain ⟨k, rfl⟩ := Nat.exists_eq_add_of_le' hn
  rw [Function.iterate_add_apply]
  exact Function.iterate_fixed (h.apply_iterate (Nat.le_refl _)) k

/-- It comes to rest where it does after one step. -/
theorem Shrinks.iterate_apply (h : Shrinks g) (m : Machine) :
    g^[(g m).cursor.rest.length] (g m) = g^[m.cursor.rest.length] m := by
  rcases h m with hsame | hless
  · rw [hsame]
  · calc
      g^[(g m).cursor.rest.length] (g m)
          = g^[m.cursor.rest.length] (g m) := (h.iterate_eq (Nat.le_of_lt hless)).symm
      _ = g^[m.cursor.rest.length + 1] m := (Function.iterate_succ_apply ..).symm
      _ = g^[m.cursor.rest.length] m := h.iterate_eq (Nat.le_succ _)

end

/-! ### Steps and runs -/

section

variable {config : Config} {depth : Nat} {m : Machine}

@[simp] theorem cursor_note (ds : List Diagnostic) (m : Machine) :
    (m.note ds).cursor = m.cursor := rfl

@[simp] theorem rest_deliver (t : Token) (m : Machine) :
    (m.deliver t).cursor.rest = m.cursor.rest := by
  obtain ⟨cursor, stack⟩ := m
  cases stack <;> rfl

@[simp] theorem rest_hand (r : Except Rejection Token) (m : Machine) :
    (m.hand r).cursor.rest = m.cursor.rest := by
  cases r with
  | ok t => exact rest_deliver t m
  | error _ => rfl

@[simp] theorem rest_close (config : Config) (cursor : Cursor) (stack : Stack) :
    (close config cursor stack).cursor.rest = cursor.rest := by
  induction stack with
  | top _ => rfl
  | group _ _ _ => exact rest_hand ..
  | pending _ _ ih => exact ih

/-- At the end of the input the machine does nothing more. -/
theorem step_of_nil (h : m.cursor.rest = []) : m.step config = m := by
  obtain ⟨⟨rest, p, macros⟩, stack⟩ := m
  obtain rfl : rest = [] := h
  rfl

/-- Every step before that consumes something. -/
theorem length_step_lt (config : Config) (h : m.cursor.rest ≠ []) :
    (m.step config).cursor.rest.length < m.cursor.rest.length := by
  obtain ⟨⟨rest, p, macros⟩, stack⟩ := m
  obtain ⟨c, s, rfl⟩ := List.exists_cons_of_ne_nil h
  have hdrop := (List.dropWhile_suffix (l := s) Lexer.isDigit).length_le
  simp only [step]
  split
  · simp
  · split
    · simp
    · simp
    · simp
    · simp
    · simpa using Nat.lt_succ_of_le hdrop
    · split
      · simp
      · simp only [List.length_cons]
        omega
    · split
      · simp
      · simp only [List.length_cons]
        omega

theorem iterate_of_nil (h : m.cursor.rest = []) (n : Nat) : (step config)^[n] m = m :=
  Function.iterate_fixed (step_of_nil h) n

theorem shrinks_step (config : Config) : Shrinks (step config) := by
  intro m
  by_cases hnil : m.cursor.rest = []
  · exact .inl (step_of_nil hnil)
  · exact .inr (length_step_lt config hnil)

theorem rest_run (config : Config) (m : Machine) : (m.run config).cursor.rest = [] := by
  by_contra hne
  have hlt := length_step_lt config hne
  rw [run, (shrinks_step config).apply_iterate (Nat.le_refl _)] at hlt
  exact absurd hlt (Nat.lt_irrefl _)

theorem run_step (config : Config) (m : Machine) : (m.step config).run config = m.run config :=
  (shrinks_step config).iterate_apply m

theorem final_step (config : Config) (m : Machine) :
    (m.step config).final config = m.final config := by
  rw [final, final, run_step]

theorem final_of_nil (h : m.cursor.rest = []) :
    m.final config = ((m.stack.unwind config m.cursor.position []).program, m.cursor.position,
      m.cursor.macros) := by
  rw [final, run, iterate_of_nil h]

theorem collected_step (config : Config) (m : Machine) :
    (m.step config).collected config = m.collected config := by
  rw [collected, collected, run_step]

theorem collected_of_nil (h : m.cursor.rest = []) :
    m.collected config = m.stack.unwind config m.cursor.position [] := by
  rw [collected, run, iterate_of_nil h]

/-! ### Readers at work -/

theorem fits_step : m.Fits config depth ↔
    m.readers config ≤ depth ∧ (m.step config).Fits config depth := by
  refine ⟨fun h => ⟨h 0, fun n => h (n + 1)⟩, fun h n => ?_⟩
  cases n with
  | zero => exact h.1
  | succ n => exact h.2 n

theorem height_le_readers (config : Config) (m : Machine) :
    2 * m.stack.height + 1 ≤ m.readers config :=
  Nat.le_add_right ..

/-- A stack that is too high already does not fit. -/
theorem not_fits (h : depth < 2 * m.stack.height + 1) : ¬ m.Fits config depth := by
  intro hfits
  have hle := Nat.le_trans (height_le_readers config m) (hfits 0)
  omega

theorem fits_of_nil (h : m.cursor.rest = []) :
    m.Fits config depth ↔ 2 * m.stack.height + 1 ≤ depth := by
  refine ⟨fun hfits => Nat.le_trans (height_le_readers config m) (hfits 0), fun hle n => ?_⟩
  rw [iterate_of_nil h, readers, h]
  exact hle

theorem readers_of_bound {c : Char} {s : List Char} {p : Position} {macros : MacroTable}
    {stack : Stack} {t : Token} (h : macros.lookup c = some t) :
    readers config ⟨⟨c :: s, p, macros⟩, stack⟩ = 2 * stack.height + 1 := by
  cases s <;> simp [readers, h]

theorem readers_of_acts {c : Char} {s : List Char} {p : Position} {macros : MacroTable}
    {stack : Stack} {role : Option Role} (h : Acts config macros c role)
    (hrole : role ≠ some .macroPrefix) :
    readers config ⟨⟨c :: s, p, macros⟩, stack⟩ = 2 * stack.height + 1 := by
  cases s <;> simp [readers, h.role, hrole]

theorem readers_of_symbolMissing {c : Char} {p : Position} {macros : MacroTable} {stack : Stack}
    (h : Acts config macros c (some .macroPrefix)) :
    readers config ⟨⟨[c], p, macros⟩, stack⟩ = 2 * stack.height + 2 := by
  simp [readers, h.unbound, h.role]

theorem readers_cons_cons (c e : Char) (s : List Char) (p : Position) (macros : MacroTable)
    (stack : Stack) : readers config ⟨⟨c :: e :: s, p, macros⟩, stack⟩ = 2 * stack.height + 1 :=
  rfl

end

/-! ### How high the stack grows -/

theorem height_deliver_le (t : Token) (m : Machine) :
    (m.deliver t).stack.height ≤ m.stack.height := by
  obtain ⟨cursor, stack⟩ := m
  cases stack with
  | top _ => exact Nat.le_refl _
  | group _ _ => exact Nat.le_refl _
  | pending _ _ => exact Nat.le_succ _

theorem height_hand_le (r : Except Rejection Token) (m : Machine) :
    (m.hand r).stack.height ≤ m.stack.height := by
  cases r with
  | ok t => exact height_deliver_le t m
  | error r => exact m.stack.height_note_le r.diagnostics

theorem height_close_le (config : Config) (cursor : Cursor) (stack : Stack) :
    (close config cursor stack).stack.height ≤ stack.height := by
  induction stack with
  | top _ => exact Nat.le_refl _
  | group scope below _ =>
    exact Nat.le_succ_of_le (height_hand_le (scope.group config cursor.position) ⟨cursor, below⟩)
  | pending _ _ ih => exact Nat.le_succ_of_le ih

/-- What is put on the stack is paid for with a character. -/
theorem height_step_le (config : Config) (m : Machine) :
    (m.step config).stack.height + (m.step config).cursor.rest.length ≤
      m.stack.height + m.cursor.rest.length := by
  obtain ⟨⟨rest, p, macros⟩, stack⟩ := m
  rcases rest with _ | ⟨c, s⟩
  · exact Nat.le_refl _
  simp only [step]
  split
  · rename_i t _
    have hle := height_deliver_le t ⟨⟨s, p.advance c, macros⟩, stack⟩
    simp only [rest_deliver, List.length_cons] at hle ⊢
    omega
  · split
    · simp only [List.length_cons]
      omega
    · have hle := height_deliver_le (.operator (String.singleton c))
        ⟨⟨s, p.advance c, macros⟩, stack⟩
      simp only [rest_deliver, List.length_cons] at hle ⊢
      omega
    · simp only [Stack.height, List.length_cons]
      omega
    · have hle := height_close_le config ⟨s, p.advance c, macros⟩ stack
      simp only [rest_close, List.length_cons] at hle ⊢
      omega
    · have hdrop := (List.dropWhile_suffix (l := s) Lexer.isDigit).length_le
      have hle := height_hand_le
        (Lexer.numeral config (p.advance c) (s.takeWhile Lexer.isDigit))
        ⟨⟨s.dropWhile Lexer.isDigit, (p.advance c).advanceBy (s.takeWhile Lexer.isDigit), macros⟩,
          stack⟩
      simp only [rest_hand, List.length_cons] at hle ⊢
      omega
    · split
      · have hle := stack.height_note_le [⟨p.advance c, Lexer.macroMissing config⟩]
        simp only [note, List.length_cons, List.length_nil]
        omega
      · simp only [Stack.height, List.length_cons]
        omega
    · split <;> simp only [List.length_cons] <;> omega

/-- Twice as many readers as there are characters, and one more, are always enough. -/
theorem fits_of_length {config : Config} {depth : Nat} {m : Machine}
    (h : 2 * (m.stack.height + m.cursor.rest.length) < depth) : m.Fits config depth := by
  intro n
  -- the sum of the height and of the characters that are left never grows
  have hle : 2 * (((step config)^[n] m).stack.height +
      ((step config)^[n] m).cursor.rest.length) < depth := by
    induction n generalizing m with
    | zero => exact h
    | succ n ih =>
      have hstep := height_step_le config m
      exact ih (by omega)
  generalize (step config)^[n] m = m' at hle ⊢
  obtain ⟨⟨rest, p, macros⟩, stack⟩ := m'
  simp only [readers] at hle ⊢
  rcases rest with _ | ⟨c, _ | ⟨e, s⟩⟩
  · simp only
    omega
  · simp only [List.length_cons, List.length_nil] at hle ⊢
    split <;> omega
  · simp only
    omega

/-- Group start delimiters pile up on the stack. -/
theorem height_iterate_groupStart {config : Config} {macros : MacroTable} {c : Char}
    (h : Acts config macros c (some .groupStart)) (n : Nat) (rest : List Char) (p : Position)
    (stack : Stack) :
    ((step config)^[n] ⟨⟨List.replicate n c ++ rest, p, macros⟩, stack⟩).stack.height =
      stack.height + n := by
  induction n generalizing p stack with
  | zero => rfl
  | succ n ih =>
    have hstep : step config ⟨⟨List.replicate (n + 1) c ++ rest, p, macros⟩, stack⟩ =
        ⟨⟨List.replicate n c ++ rest, p.advance c, macros⟩, .group .empty stack⟩ := by
      simp only [List.replicate_succ, List.cons_append, step, h.unbound, h.role]
    rw [Function.iterate_succ_apply, hstep, ih, Stack.height]
    omega

/-- Too many groups inside of each other do not fit. -/
theorem not_fits_groupStart {config : Config} {c : Char} (h : config.roleOf c = some .groupStart)
    {depth n : Nat} (hdepth : depth ≤ 2 * n) (rest : List Char) :
    ¬ (start (List.replicate n c ++ rest)).Fits config depth := by
  intro hfits
  have hacts : Acts config .empty c (some .groupStart) := ⟨rfl, h⟩
  have hheight := height_iterate_groupStart hacts n rest .start (.top .empty)
  have hle := Nat.le_trans (height_le_readers config _) (hfits n)
  simp only [start, hheight, Stack.height] at hle
  omega

end Machine

end Unroll
