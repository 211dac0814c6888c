import Unroll.Proofs.Interruptions
import Unroll.Proofs.Reports

/-!
# Programs one after the other

A program that leaves nothing open at its end is read as it is whatever follows, and what follows
is read as a program of its own, under the macros and from the position that the first one has left.
What is wrong with the first program makes no difference to this.

* `Lexer.collect` — the tokens that are read before the diagnostics are looked at, and the latter;
* `Lexer.At.collect` — the lexer collects what the machine does;
* `Machine.Hungry`, `Machine.Complete` — the last character of a program asks for another, or never
  does;
* `Stack.after`, `Machine.collected_after` — reading goes on where a scope was read before;
* `Lexer.collect_append` — what is collected from a text and another one behind it.
-/

namespace Unroll

/-! ### What is collected -/

namespace Lexer

/-- Reads tokens up to the end of the input, as `allIn` does, and gives the diagnostics together
with them. -/
def collectIn (config : Config) (steps depth : Nat) : (rounds : Nat) → (tokens : List Token) →
    (found : List Diagnostic) → Lexer → Except Failure Scope × Lexer
  | 0, tokens, _, l => (.ok ⟨tokens.reverse, []⟩, l)
  | rounds + 1, tokens, found, l =>
    match tokenIn config steps depth l with
    | (.error (.rejected r), l) =>
      collectIn config steps depth rounds tokens (r.diagnostics.reverse ++ found) l
    | (.error e, l) => (.error e, l)
    | (.ok (some t), l) => collectIn config steps depth rounds (t :: tokens) found l
    | (.ok none, l) => (.ok ⟨tokens.reverse, found.reverse⟩, l)

/-- The tokens and the syntax errors of a program. -/
def collect (config : Config) (depth : Nat) (l : Lexer) : Except Failure Scope × Lexer :=
  collectIn config l.steps depth l.steps [] [] l

theorem allIn_eq_collectIn (config : Config) (steps depth rounds : Nat) (tokens : List Token)
    (found : List Diagnostic) (l : Lexer) :
    allIn config steps depth rounds tokens found l =
      ((collectIn config steps depth rounds tokens found l).1.bind Scope.program,
        (collectIn config steps depth rounds tokens found l).2) := by
  induction rounds generalizing tokens found l with
  | zero => rfl
  | succ rounds ih =>
    rcases hread : tokenIn config steps depth l with ⟨(r | f | _) | (_ | t), l'⟩
    · simp only [allIn, collectIn, hread, ih]
    · simp only [allIn, collectIn, hread]
      rfl
    · simp only [allIn, collectIn, hread]
      rfl
    · simp only [allIn, collectIn, hread, Except.bind, Scope.program]
      cases Report.ofList? found.reverse <;> rfl
    · simp only [allIn, collectIn, hread, ih]

/-- A program is read by collecting its tokens, and by reporting its syntax errors if it has any. -/
theorem readAll_eq_collect (config : Config) (depth : Nat) (l : Lexer) :
    l.readAll config depth =
      ((l.collect config depth).1.bind Scope.program, (l.collect config depth).2) :=
  allIn_eq_collectIn ..

/-- What is collected is what the machine comes to, or its stack does not fit. -/
structure Gathers (config : Config) (depth : Nat) (m : Machine)
    (read : Except Failure Scope × Lexer) : Prop where
  fits (h : m.Fits config depth) : read.1 = .ok (m.collected config) ∧
    read.2.At ⟨[], (m.final config).2.1, (m.final config).2.2⟩
  tooDeep (h : ¬ m.Fits config depth) : read.1 = .error .tooDeep

theorem Gathers.of_agree {config : Config} {depth : Nat} {m m' : Machine}
    {read : Except Failure Scope × Lexer} (h : Gathers config depth m' read)
    (hagree : Machine.Agree config depth m m') : Gathers config depth m read := by
  constructor
  · intro hfits
    rw [hagree.collected, hagree.final]
    exact h.fits (hagree.fits.1 hfits)
  · intro hfits
    exact h.tooDeep fun hfits' => hfits (hagree.fits.2 hfits')

open Machine in
theorem At.collectIn {config : Config} {steps rounds : Nat} {l : Lexer} {cursor : Cursor}
    (depth : Nat) (ts : List Token) (ds : List Diagnostic) (h : l.At cursor)
    (hsteps : 2 * cursor.rest.length + 1 ≤ steps) (hrounds : cursor.rest.length < rounds) :
    Gathers config depth ⟨cursor, .top ⟨ts.reverse, ds.reverse⟩⟩
      (Lexer.collectIn config steps depth rounds ts ds l) := by
  -- every item before the end of the input consumes a character, so that the rounds suffice
  induction rounds generalizing l cursor ts ds with
  | zero => omega
  | succ rounds ih =>
    obtain ⟨o, c₁, l₁, hitem, h₁, hreads⟩ :=
      (follows config steps).1 steps (Nat.le_refl _) depth l cursor h hsteps
    have hposition : l₁.position = c₁.position := h₁.position
    have hle := hreads.length_le
    have hleads : Leads config depth ⟨cursor, .top ⟨ts.reverse, ds.reverse⟩⟩ o
        ⟨c₁, .top ⟨ts.reverse, ds.reverse⟩⟩ := hreads.leads (.top _) rfl
    cases o with
    | token t =>
      simp only [Reader.least] at hle
      have hnext := ih (t :: ts) ds h₁ (by omega) (by omega)
      rw [List.reverse_cons] at hnext
      simp only [Lexer.collectIn, tokenIn, hitem, Outcome.result]
      exact hnext.of_agree (hleads.1 (by simp))
    | rejected r =>
      simp only [Reader.least] at hle
      have hnext := ih ts (r.diagnostics.reverse ++ ds) h₁ (by omega) (by omega)
      rw [List.reverse_append, List.reverse_reverse] at hnext
      simp only [Lexer.collectIn, tokenIn, hitem, Outcome.result]
      exact hnext.of_agree (hleads.1 (by simp))
    | groupEnd =>
      simp only [Reader.least] at hle
      have hnext := ih ts (⟨c₁.position, unopened config⟩ :: ds) h₁ (by omega) (by omega)
      rw [List.reverse_cons] at hnext
      simp only [Lexer.collectIn, tokenIn, hitem, Outcome.result, reject, rejectAt, hposition]
      exact hnext.of_agree (hleads.1 (by simp))
    | tooDeep =>
      simp only [Lexer.collectIn, tokenIn, hitem, Outcome.result]
      exact ⟨fun hfits => absurd hfits (hleads.2 rfl), fun _ => rfl⟩
    | inputEnd =>
      have hnil : c₁.rest = [] := hreads.rest_eq_nil
      have hpos := hreads.depth_pos (by simp)
      simp only [Lexer.collectIn, tokenIn, hitem, Outcome.result]
      have hend : Gathers config depth ⟨c₁, .top ⟨ts.reverse, ds.reverse⟩⟩
          (.ok ⟨ts.reverse, ds.reverse⟩, l₁) := by
        constructor
        · intro _
          rw [collected_of_nil hnil, final_of_nil hnil]
          simp only [Stack.unwind, Scope.note, List.append_nil]
          obtain ⟨rest, p, m⟩ := c₁
          obtain rfl : rest = [] := hnil
          exact ⟨trivial, h₁⟩
        · intro hfits
          refine absurd ((fits_of_nil hnil).2 ?_) hfits
          simp only [Stack.height]
          omega
      exact hend.of_agree (hleads.1 (by simp))

/-- A lexer that stands at a cursor collects what the machine comes to there. -/
theorem At.collect {l : Lexer} {cursor : Cursor} (h : l.At cursor) (config : Config)
    (depth : Nat) : Gathers config depth ⟨cursor, .top .empty⟩ (l.collect config depth) := by
  have hle := h.length_le
  exact h.collectIn depth [] [] (by omega) (by omega)

end Lexer

/-! ### The last character -/

namespace Machine

/-- The last character that is left asks for another one: it is a prefix whose symbol is missing, or
one that has nothing to escape. -/
inductive Hungry (config : Config) : Machine → Prop where
  | definition {c : Char} {p : Position} {macros : MacroTable} {stack : Stack}
      (h : Acts config macros c (some .macroPrefix)) : Hungry config ⟨⟨[c], p, macros⟩, stack⟩
  | escape {c : Char} {p : Position} {macros : MacroTable} {stack : Stack}
      (h : Acts config macros c (some .escapePrefix)) : Hungry config ⟨⟨[c], p, macros⟩, stack⟩

section

variable {config : Config} {depth : Nat} {m : Machine} {s : List Char}

/-- Before the end, a step is the same whatever follows but a digit, unless the last character asks
for another one. -/
theorem step_extend_of_not_hungry (hne : m.cursor.rest ≠ []) (h : ¬ Hungry config m)
    (hs : ∀ c ∈ s.head?, Lexer.isDigit c = false) :
    (m.extend s).step config = (m.step config).extend s := by
  rcases hstarved : m.starved config with _ | _
  · exact step_extend hstarved s
  obtain ⟨⟨rest, p, macros⟩, stack⟩ := m
  obtain ⟨c, rest, rfl⟩ := List.exists_cons_of_ne_nil hne
  rcases hlookup : macros.lookup c with _ | t
  · rcases hrole : config.roleOf c with _ | role
    · simp [starved, hlookup, hrole] at hstarved
    have hacts : Acts config macros c (some role) := ⟨hlookup, hrole⟩
    cases role with
    | operator => simp [starved, hlookup, hrole] at hstarved
    | groupStart => simp [starved, hlookup, hrole] at hstarved
    | groupEnd => simp [starved, hlookup, hrole] at hstarved
    | numberPrefix =>
      have hdigits : ∀ c ∈ rest, Lexer.isDigit c = true := by
        simpa [starved, hlookup, hrole] using hstarved
      have htake := Lexer.takeWhile_digits hdigits hs
      have hdrop := Lexer.dropWhile_digits hdigits hs
      have hall : rest.takeWhile Lexer.isDigit = rest := List.takeWhile_eq_self_iff.2 hdigits
      have hnone : rest.dropWhile Lexer.isDigit = [] := List.dropWhile_eq_nil_iff.2 hdigits
      simp only [extend_mk, List.cons_append, step, hlookup, hrole, htake, hdrop, hall, hnone]
      rw [extend_hand, extend_mk, List.nil_append]
    | macroPrefix =>
      obtain rfl : rest = [] := by simpa [starved, hlookup, hrole] using hstarved
      exact absurd (.definition hacts) h
    | escapePrefix =>
      obtain rfl : rest = [] := by simpa [starved, hlookup, hrole] using hstarved
      exact absurd (.escape hacts) h
  · simp [starved, hlookup] at hstarved

/-- The machine never stands at a last character that asks for another one. -/
def Complete (config : Config) (m : Machine) : Prop :=
  ∀ n, ¬ Hungry config ((step config)^[n] m)

theorem Complete.step (h : m.Complete config) : (m.step config).Complete config :=
  fun n => h (n + 1)

theorem readers_extend (hne : m.cursor.rest ≠ []) (h : ¬ Hungry config m) :
    (m.extend s).readers config = m.readers config := by
  obtain ⟨⟨rest, p, macros⟩, stack⟩ := m
  rcases rest with _ | ⟨c, _ | ⟨e, rest⟩⟩
  · exact absurd rfl hne
  · have hreaders : ∀ s, readers config ⟨⟨c :: s, p, macros⟩, stack⟩ = 2 * stack.height + 1 := by
      intro s
      rcases hlookup : macros.lookup c with _ | t
      · refine readers_of_acts ⟨hlookup, rfl⟩ fun hrole => ?_
        exact h (.definition ⟨hlookup, hrole⟩)
      · exact readers_of_bound hlookup
    rw [extend_mk, List.singleton_append, hreaders, hreaders]
  · rfl

/-- Where the machine stands there are not more readers at work than it takes to go on. -/
theorem readers_le_of_extend (h : (m.extend s).Fits config depth) : m.readers config ≤ depth := by
  have hle : 2 * m.stack.height + 1 ≤ depth :=
    Nat.le_trans (height_le_readers config (m.extend s)) (h 0)
  obtain ⟨⟨rest, p, macros⟩, stack⟩ := m
  rcases rest with _ | ⟨c, _ | ⟨e, rest⟩⟩
  · exact hle
  · rcases hlookup : macros.lookup c with _ | t
    · by_cases hrole : config.roleOf c = some .macroPrefix
      · have hacts : Acts config macros c (some .macroPrefix) := ⟨hlookup, hrole⟩
        cases s with
        | nil => exact h 0
        | cons a s =>
          -- the symbol that follows makes room for one reader more than the end does
          have hpending := h 1
          simp only [extend_mk, List.singleton_append, Function.iterate_one, step, hlookup,
            hrole] at hpending
          have hheight := Nat.le_trans (height_le_readers config _) hpending
          simp only [Stack.height] at hheight
          rw [readers_of_symbolMissing hacts]
          omega
      · rw [readers_of_acts ⟨hlookup, rfl⟩ hrole]
        exact hle
    · rw [readers_of_bound hlookup]
      exact hle
  · exact hle

/-- What is read with more behind it is not nested too deeply without it. -/
theorem fits_of_extend (h : (m.extend s).Fits config depth) : m.Fits config depth := by
  induction hlength : m.cursor.rest.length using Nat.strongRecOn generalizing m with
  | ind length ih =>
    have hreaders := readers_le_of_extend h
    rcases hstarved : m.starved config with _ | _
    · have hless := length_step_lt config (rest_ne_nil hstarved)
      rw [fits_step, step_extend hstarved] at h
      exact fits_step.2 ⟨hreaders, ih _ (hlength ▸ hless) h.2 rfl⟩
    · exact (fits_of_starved hstarved).2 hreaders

/-- A program that asks for nothing at its end is read as it is, whatever follows but a digit, and
what follows is read from where it ends. -/
theorem Complete.extend (h : m.Complete config) (hs : ∀ c ∈ s.head?, Lexer.isDigit c = false) :
    (m.extend s).run config = ((m.run config).extend s).run config ∧
      ((m.extend s).Fits config depth ↔
        m.Fits config depth ∧ ((m.run config).extend s).Fits config depth) := by
  induction hlength : m.cursor.rest.length using Nat.strongRecOn generalizing m with
  | ind length ih =>
    by_cases hnil : m.cursor.rest = []
    · have hrun : m.run config = m := iterate_of_nil hnil _
      rw [hrun]
      refine ⟨rfl, fun hfits => ⟨(fits_of_nil hnil).2 ?_, hfits⟩, fun hfits => hfits.2⟩
      exact Nat.le_trans (height_le_readers config (m.extend s)) (hfits 0)
    · have hless := length_step_lt config hnil
      obtain ⟨hrun, hfits⟩ := ih _ (hlength ▸ hless) h.step rfl
      have hstep := step_extend_of_not_hungry hnil (h 0) hs
      have hreaders := readers_extend (s := s) hnil (h 0)
      rw [run_step] at hrun hfits
      refine ⟨?_, ?_⟩
      · rw [← run_step, hstep, hrun]
      · rw [fits_step, hstep, hreaders, hfits, fits_step (m := m), and_assoc]

end

end Machine

/-! ### Going on in a scope -/

/-- What was read in one scope and then in another. -/
def Scope.append (first second : Scope) : Scope :=
  ⟨first.tokens ++ second.tokens, first.found ++ second.found⟩

/-- The stack where a scope was read before. -/
def Stack.after (scope : Scope) : Stack → Stack
  | top inner => top (scope.append inner)
  | group inner below => group inner (below.after scope)
  | pending symbol below => pending symbol (below.after scope)

namespace Stack

theorem note_after (scope : Scope) (ds : List Diagnostic) (stack : Stack) :
    (stack.after scope).note ds = (stack.note ds).after scope := by
  induction stack with
  | top inner => simp only [after, note, Scope.append, Scope.note, List.append_assoc]
  | group inner below _ => rfl
  | pending _ below ih => exact ih

theorem height_after (scope : Scope) (stack : Stack) :
    (stack.after scope).height = stack.height := by
  induction stack with
  | top _ => rfl
  | group _ below ih => exact congrArg (· + 1) ih
  | pending _ below ih => exact congrArg (· + 1) ih

theorem unwind_after (config : Config) (position : Position) (scope : Scope)
    (ds : List Diagnostic) (stack : Stack) :
    (stack.after scope).unwind config position ds =
      scope.append (stack.unwind config position ds) := by
  induction stack generalizing ds with
  | top inner => simp only [after, unwind, Scope.append, Scope.note, List.append_assoc]
  | group inner below ih => exact ih _
  | pending _ below ih =>
    cases ds with
    | nil => exact ih _
    | cons d ds => exact ih _

end Stack

namespace Machine

/-- The machine where a scope was read before. -/
def after (scope : Scope) (m : Machine) : Machine := { m with stack := m.stack.after scope }

section

variable {config : Config} {depth : Nat} (scope : Scope) (m : Machine)

theorem deliver_after (t : Token) : (m.after scope).deliver t = (m.deliver t).after scope := by
  obtain ⟨cursor, stack⟩ := m
  cases stack with
  | top inner => simp only [after, Stack.after, deliver, Scope.append, Scope.add, List.append_assoc]
  | group _ _ => rfl
  | pending _ _ => rfl

theorem hand_after (r : Except Rejection Token) :
    (m.after scope).hand r = (m.hand r).after scope := by
  cases r with
  | ok t => exact deliver_after scope m t
  | error r => simp only [hand, note, after, Stack.note_after]

theorem close_after (config : Config) (cursor : Cursor) (stack : Stack) :
    close config cursor (stack.after scope) = (close config cursor stack).after scope := by
  induction stack with
  | top inner =>
    simp only [after, Stack.after, close, Scope.append, Scope.note, List.append_assoc]
  | group inner below _ => exact hand_after scope ⟨cursor, below⟩ _
  | pending _ below ih => exact ih

/-- Every step is the same where a scope was read before. -/
theorem step_after (config : Config) : (m.after scope).step config = (m.step config).after scope := by
  obtain ⟨⟨rest, p, macros⟩, stack⟩ := m
  rcases rest with _ | ⟨c, rest⟩
  · rfl
  simp only [after, step]
  rcases hlookup : macros.lookup c with _ | t
  · rcases hrole : config.roleOf c with _ | role
    · rfl
    cases role with
    | operator => exact deliver_after scope ⟨⟨rest, p.advance c, macros⟩, stack⟩ _
    | groupStart => rfl
    | groupEnd => exact close_after scope config _ stack
    | numberPrefix => exact hand_after scope ⟨_, stack⟩ _
    | macroPrefix =>
      cases rest with
      | nil => simp only [note, Stack.note_after]
      | cons a rest => rfl
    | escapePrefix => cases rest <;> rfl
  · exact deliver_after scope ⟨⟨rest, p.advance c, macros⟩, stack⟩ t

theorem iterate_after (config : Config) (n : Nat) :
    (step config)^[n] (m.after scope) = ((step config)^[n] m).after scope := by
  induction n generalizing m with
  | zero => rfl
  | succ n ih => rw [Function.iterate_succ_apply, step_after, ih, Function.iterate_succ_apply]

theorem run_after (config : Config) : (m.after scope).run config = (m.run config).after scope :=
  iterate_after scope m config _

theorem collected_after (config : Config) :
    (m.after scope).collected config = scope.append (m.collected config) := by
  rw [collected, run_after]
  exact Stack.unwind_after ..

theorem readers_after (config : Config) : (m.after scope).readers config = m.readers config := by
  simp only [readers, after, Stack.height_after]
  rfl

theorem fits_after : (m.after scope).Fits config depth ↔ m.Fits config depth := by
  refine forall_congr' fun n => ?_
  rw [iterate_after, readers_after]

theorem final_after (config : Config) :
    ((m.after scope).final config).2 = (m.final config).2 := by
  rw [final, run_after]
  rfl

end

/-! ### Programs that leave nothing open -/

section

variable {config : Config} {m : Machine}

/-- What is left is always an end of the text. -/
theorem rest_step_suffix (config : Config) (m : Machine) :
    (m.step config).cursor.rest <:+ m.cursor.rest := by
  obtain ⟨⟨rest, p, macros⟩, stack⟩ := m
  rcases rest with _ | ⟨c, s⟩
  · exact List.suffix_refl _
  have hnext : s <:+ c :: s := List.suffix_cons c s
  simp only [step]
  split
  · simpa only [rest_deliver] using hnext
  · split
    · exact hnext
    · simpa only [rest_deliver] using hnext
    · exact hnext
    · simpa only [rest_close] using hnext
    · simpa only [rest_hand] using (List.dropWhile_suffix _).trans hnext
    · split
      · exact hnext
      · exact (List.suffix_cons _ _).trans hnext
    · split
      · exact hnext
      · exact (List.suffix_cons _ _).trans hnext

theorem rest_iterate_suffix (config : Config) (n : Nat) (m : Machine) :
    ((step config)^[n] m).cursor.rest <:+ m.cursor.rest := by
  induction n generalizing m with
  | zero => exact List.suffix_refl _
  | succ n ih =>
    rw [Function.iterate_succ_apply]
    exact (ih (m.step config)).trans (rest_step_suffix config m)

theorem collected_iterate (config : Config) (n : Nat) (m : Machine) :
    ((step config)^[n] m).collected config = m.collected config := by
  induction n generalizing m with
  | zero => rfl
  | succ n ih => rw [Function.iterate_succ_apply, ih, collected_step]

/-- A program in which no definition misses its body, and which does not end in an escape prefix,
asks for nothing at its end. -/
theorem complete_of_found
    (hfound : ∀ d ∈ (m.collected config).found, d.problem ≠ Lexer.macroMissing config)
    (hescape : ∀ n c, ((step config)^[n] m).cursor.rest = [c] →
      ¬ Acts config ((step config)^[n] m).cursor.macros c (some .escapePrefix)) :
    m.Complete config := by
  intro n hhungry
  have hescape := hescape n
  rw [← collected_iterate config n m] at hfound
  generalize (step config)^[n] m = m' at hhungry hescape hfound
  cases hhungry with
  | @definition c p macros stack hacts =>
    have hstep : step config ⟨⟨[c], p, macros⟩, stack⟩ =
        note [⟨p.advance c, Lexer.macroMissing config⟩] ⟨⟨[], p.advance c, macros⟩, stack⟩ := by
      simp only [step, hacts.unbound, hacts.role]
    rw [← collected_step, hstep, collected_of_nil rfl, Stack.found_unwind] at hfound
    refine hfound ⟨p.advance c, Lexer.macroMissing config⟩ ?_ rfl
    simp [note]
  | escape hacts => exact hescape _ rfl hacts

/-- A program in which no definition misses its body and no group is unclosed leaves nothing on the
stack but what was collected. -/
theorem stack_run (h : ∀ d ∈ (m.collected config).found,
      d.problem ≠ Lexer.macroMissing config ∧ d.problem ≠ Lexer.unclosed config) :
    (m.run config).stack = .top (m.collected config) := by
  rw [collected] at h ⊢
  rw [Stack.found_unwind] at h
  generalize (m.run config).cursor.position = position at h ⊢
  generalize (m.run config).stack = stack at h ⊢
  cases stack with
  | top scope => simp only [Stack.unwind, Scope.note, List.append_nil]
  | group scope below =>
    have hmem : (⟨position, Lexer.unclosed config⟩ : Diagnostic) ∈
        (Stack.group scope below).atEnd config position := by
      simp [Stack.atEnd, Stack.groups]
    exact ((h _ (List.mem_append_right _ hmem)).2 rfl).elim
  | pending symbol below =>
    have hmem : (⟨position, Lexer.macroMissing config⟩ : Diagnostic) ∈
        (Stack.pending symbol below).atEnd config position := by
      simp [Stack.atEnd, Stack.missing]
    exact ((h _ (List.mem_append_right _ hmem)).1 rfl).elim

/-- Where nothing is left open, the machine goes on with what follows in the scope of what it has
read. -/
theorem run_extend {s : List Char} (hs : ∀ c ∈ s.head?, Lexer.isDigit c = false)
    (hfound : ∀ d ∈ (m.collected config).found,
      d.problem ≠ Lexer.macroMissing config ∧ d.problem ≠ Lexer.unclosed config)
    (hcomplete : m.Complete config) (depth : Nat) :
    let last := (m.run config).cursor
    let next : Machine := ⟨⟨s, last.position, last.macros⟩, .top .empty⟩
    (m.extend s).run config = (next.after (m.collected config)).run config ∧
      ((m.extend s).Fits config depth ↔ m.Fits config depth ∧ next.Fits config depth) := by
  intro last next
  obtain ⟨hrun, hfits⟩ : _ ∧ (_ ↔ _ ∧ Fits config depth _) := hcomplete.extend hs
  have hnext : (m.run config).extend s = next.after (m.collected config) := by
    have hrest := rest_run config m
    have hstack := stack_run hfound
    simp only [extend, after, next, last, hrest, hstack, List.nil_append, Stack.after, Scope.append,
      Scope.empty, List.append_nil]
  rw [hnext] at hrun
  rw [hnext, fits_after] at hfits
  exact ⟨hrun, hfits⟩

end

end Machine

/-! ### Texts one after the other -/

namespace Lexer

/-- Reading a text comes to an escape prefix that is not bound and is the last character. -/
def EndsInEscape (config : Config) (text : List Char) : Prop :=
  ∃ n c, ((Machine.step config)^[n] (Machine.start text)).cursor.rest = [c] ∧
    Acts config ((Machine.step config)^[n] (Machine.start text)).cursor.macros c
      (some .escapePrefix)

/-- A text that ends in such a prefix has it as its last character. -/
theorem EndsInEscape.role {config : Config} {text : List Char} (h : EndsInEscape config text) :
    ∃ c, text.getLast? = some c ∧ config.roleOf c = some .escapePrefix := by
  obtain ⟨n, c, hrest, hacts⟩ := h
  obtain ⟨before, hbefore⟩ := Machine.rest_iterate_suffix config n (Machine.start text)
  have htext : text = before ++ [c] := by rw [← hrest, hbefore, Machine.start]
  exact ⟨c, by rw [htext, List.getLast?_concat], hacts.role⟩

/-- A lexer that goes on with a text where another one has stopped. -/
def resumed (l : Lexer) (text : List Char) : Lexer :=
  { ofText text with position := l.position, macros := l.macros }

theorem at_resumed (l : Lexer) (text : List Char) :
    (l.resumed text).At ⟨text, l.position, l.macros⟩ :=
  let h := at_ofText text
  ⟨h.rest, rfl, rfl, h.quiet⟩

/-- What is collected from a text with another one behind it is what is collected from the first,
and then what a lexer collects from the second that goes on with the macros and at the position of
the first. This holds if the first text leaves no definition without its body and no group unclosed,
and neither ends in an escape prefix nor is followed by a digit. What else is wrong with it makes no
difference, and if either is nested too deeply then so are both together. A program is read by
collecting it. -/
theorem collect_append (config : Config) (depth : Nat) {text₁ text₂ : List Char}
    (hclosed : ∀ scope, ((ofText text₁).collect config depth).1 = .ok scope →
      ∀ d ∈ scope.found, d.problem ≠ macroMissing config ∧ d.problem ≠ unclosed config)
    (hescape : ¬ EndsInEscape config text₁) (hdigit : ∀ c ∈ text₂.head?, isDigit c = false) :
    let first := (ofText text₁).collect config depth
    let second := (first.2.resumed text₂).collect config depth
    let whole := (ofText (text₁ ++ text₂)).collect config depth
    (∀ l : Lexer, l.readAll config depth =
      ((l.collect config depth).1.bind Scope.program, (l.collect config depth).2)) ∧
    whole.1 = first.1.bind (fun scope₁ => second.1.map fun scope₂ =>
      ⟨scope₁.tokens ++ scope₂.tokens, scope₁.found ++ scope₂.found⟩) ∧
    ∀ scope, whole.1 = .ok scope →
      whole.2.position = second.2.position ∧ whole.2.macros = second.2.macros := by
  intro first second whole
  have hfirst : Gathers config depth (.start text₁) first := (at_ofText text₁).collect config depth
  have hwhole : Gathers config depth (.start (text₁ ++ text₂)) whole :=
    (at_ofText (text₁ ++ text₂)).collect config depth
  refine ⟨readAll_eq_collect config depth, ?_⟩
  by_cases hfits₁ : (Machine.start text₁).Fits config depth
  · obtain ⟨hok₁, hat₁⟩ := hfirst.fits hfits₁
    have hfound := hclosed _ hok₁
    have hcomplete : (Machine.start text₁).Complete config :=
      Machine.complete_of_found (fun d hd => (hfound d hd).1)
        fun n c hrest hacts => hescape ⟨n, c, hrest, hacts⟩
    let last := ((Machine.start text₁).run config).cursor
    let next : Machine := ⟨⟨text₂, last.position, last.macros⟩, .top .empty⟩
    have hsecond : Gathers config depth next second := by
      have hsecond := (at_resumed first.2 text₂).collect config depth
      rwa [hat₁.position, hat₁.macros] at hsecond
    obtain ⟨hrun, hfits⟩ := Machine.run_extend hdigit hfound hcomplete depth
    by_cases hfits₂ : next.Fits config depth
    · obtain ⟨hok, hat⟩ := hwhole.fits (hfits.2 ⟨hfits₁, hfits₂⟩)
      obtain ⟨hok₂, hat₂⟩ := hsecond.fits hfits₂
      have hcollected : (Machine.start (text₁ ++ text₂)).collected config =
          ((Machine.start text₁).collected config).append (next.collected config) := by
        rw [← Machine.collected_after, Machine.collected, Machine.collected, ← hrun]
        rfl
      have hfinal : ((Machine.start (text₁ ++ text₂)).final config).2 = (next.final config).2 := by
        rw [← Machine.final_after ((Machine.start text₁).collected config) next config,
          Machine.final, Machine.final, ← hrun]
        rfl
      rw [hfinal] at hat
      rw [hok, hok₁, hok₂, hcollected]
      exact ⟨rfl, fun _ _ => ⟨hat.position.trans hat₂.position.symm,
        hat.macros.trans hat₂.macros.symm⟩⟩
    · have htooDeep : whole.1 = .error .tooDeep :=
        hwhole.tooDeep fun hboth => hfits₂ (hfits.1 hboth).2
      rw [htooDeep, hok₁, hsecond.tooDeep hfits₂]
      exact ⟨rfl, by simp⟩
  · have htooDeep : whole.1 = .error .tooDeep :=
      hwhole.tooDeep fun hboth => hfits₁ (Machine.fits_of_extend hboth)
    rw [htooDeep, hfirst.tooDeep hfits₁]
    exact ⟨rfl, by simp⟩

/-- A group end without a group, a definition and a number, with a use of the macro behind them, and
another group end without a group. -/
theorem collect_append_definition :
    let text₁ := [')', '$', 'a', '+', '#', '2']
    let text₂ := ['a', ')']
    let found₁ : List Diagnostic := [⟨⟨1, 1⟩, unopened .standard⟩]
    let found₂ : List Diagnostic := [⟨⟨1, 8⟩, unopened .standard⟩]
    ((ofText text₁).collect .standard nestingLimit).1 = .ok ⟨[.number 2], found₁⟩ ∧
    (∀ d ∈ found₁, d.problem ≠ macroMissing .standard ∧ d.problem ≠ unclosed .standard) ∧
    ¬ EndsInEscape .standard text₁ ∧ (∀ c ∈ text₂.head?, isDigit c = false) ∧
    ((ofText (text₁ ++ text₂)).collect .standard nestingLimit).1 =
      .ok ⟨[.number 2, .operator "+"], found₁ ++ found₂⟩ := by
  intro text₁ text₂ found₁ found₂
  have hlength : ∀ {m : Machine}, 2 * (m.stack.height + m.cursor.rest.length) < nestingLimit →
      m.Fits .standard nestingLimit := Machine.fits_of_length
  have hok₁ : ((ofText text₁).collect .standard nestingLimit).1 = .ok ⟨[.number 2], found₁⟩ :=
    (((at_ofText text₁).collect .standard nestingLimit).fits (hlength (by decide))).1
  have hfound : ∀ d ∈ found₁,
      d.problem ≠ macroMissing .standard ∧ d.problem ≠ unclosed .standard := by decide
  have hclosed : ∀ scope, ((ofText text₁).collect .standard nestingLimit).1 = .ok scope →
      ∀ d ∈ scope.found, d.problem ≠ macroMissing .standard ∧ d.problem ≠ unclosed .standard := by
    intro scope hscope
    obtain rfl := Except.ok.inj (hok₁.symm.trans hscope)
    exact hfound
  have hescape : ¬ EndsInEscape .standard text₁ := by
    intro h
    obtain ⟨c, hlast, hrole⟩ := h.role
    obtain rfl : '2' = c := Option.some.inj hlast
    exact absurd hrole (by decide)
  have hdigit : ∀ c ∈ text₂.head?, isDigit c = false := by
    intro c hc
    obtain rfl : 'a' = c := Option.some.inj hc
    decide
  obtain ⟨-, hwhole, -⟩ := collect_append .standard nestingLimit hclosed hescape hdigit
  rw [hok₁] at hwhole
  exact ⟨hok₁, hfound, hescape, hdigit, hwhole⟩

end Lexer

end Unroll
