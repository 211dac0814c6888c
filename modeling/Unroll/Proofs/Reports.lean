import Unroll.Proofs.Positions
import Unroll.Proofs.Simulation

/-!
# The diagnostics of a program

The readers of groups gather diagnostics each for itself, and only report them at the end of their
group. They come out in the order of the text all the same. On the stack of the machine they stand
in this order at any time: from the top of the program to the innermost group.

* `Stack.found`, `Stack.groups` — the diagnostics and the open groups on a stack;
* `Stack.atEnd`, `Stack.found_unwind` — what the end of the input adds to them;
* `Machine.Notices`, `Machine.Advances` — what one step adds to them;
* `Machine.Orderly` — what every step keeps: the order of the diagnostics, and their places;
* `Lexer.readAll_report` — the shape of the report of a program.
-/

namespace Unroll

/-! ### Diagnostics on the stack -/

namespace Stack

/-- The diagnostics found so far, from the top of the program to the innermost group. -/
def found : Stack → List Diagnostic
  | top scope => scope.found
  | group scope below => below.found ++ scope.found
  | pending _ below => below.found

/-- The number of open groups. -/
def groups : Stack → Nat
  | top _ => 0
  | group _ below => below.groups + 1
  | pending _ below => below.groups

/-- What was read of the innermost group, if there is an open one. -/
def innermost : Stack → Option Scope
  | top _ => none
  | group scope _ => some scope
  | pending _ below => below.innermost

/-- What is missing if the input ends at `position`: the body of the definition that waits for
one. -/
def missing (config : Config) (position : Position) : Stack → List Diagnostic
  | pending _ _ => [⟨position, Lexer.macroMissing config⟩]
  | top _ | group _ _ => []

/-- What the end of the input at `position` adds: what is missing, and that the open groups are
unclosed. -/
def atEnd (config : Config) (position : Position) (stack : Stack) : List Diagnostic :=
  stack.missing config position ++
    List.replicate stack.groups ⟨position, Lexer.unclosed config⟩

theorem mem_missing {config : Config} {position : Position} {stack : Stack} {d : Diagnostic}
    (h : d ∈ stack.missing config position) : d = ⟨position, Lexer.macroMissing config⟩ := by
  cases stack with
  | top _ => cases h
  | group _ _ => cases h
  | pending _ _ => exact List.mem_singleton.1 h

theorem mem_atEnd {config : Config} {position : Position} {stack : Stack} {d : Diagnostic}
    (h : d ∈ stack.atEnd config position) :
    d.position = position ∧ d.problem ≠ Lexer.emptyGroup config := by
  rcases List.mem_append.1 h with h | h
  · rw [mem_missing h]
    exact ⟨rfl, Problem.noConfusion⟩
  · rw [List.eq_of_mem_replicate h]
    exact ⟨rfl, Problem.noConfusion⟩

@[simp] theorem found_note (ds : List Diagnostic) (stack : Stack) :
    (stack.note ds).found = stack.found ++ ds := by
  induction stack with
  | top scope => rfl
  | group scope below _ => simp only [note, found, Scope.note, List.append_assoc]
  | pending _ below ih => exact ih

@[simp] theorem groups_note (ds : List Diagnostic) (stack : Stack) :
    (stack.note ds).groups = stack.groups := by
  induction stack with
  | top scope => rfl
  | group scope below _ => rfl
  | pending _ below ih => exact ih

/-- No definition waits for its body after diagnostics were noted. -/
theorem missing_note (config : Config) (position : Position) (ds : List Diagnostic)
    (stack : Stack) : (stack.note ds).missing config position = [] := by
  induction stack with
  | top scope => rfl
  | group scope below _ => rfl
  | pending _ below ih => exact ih

/-- Diagnostics from above come behind those on the stack, and every open group adds its own. -/
theorem found_unwind_of_ne_nil (config : Config) (position : Position) (stack : Stack)
    {ds : List Diagnostic} (hds : ds ≠ []) :
    (stack.unwind config position ds).found =
      stack.found ++ ds ++ List.replicate stack.groups ⟨position, Lexer.unclosed config⟩ := by
  induction stack generalizing ds with
  | top scope => simp only [unwind, Scope.note, found, groups, List.replicate_zero, List.append_nil]
  | group scope below ih =>
    have hne : scope.found ++ ds ++ [⟨position, Lexer.unclosed config⟩] ≠ [] := by simp
    rw [unwind, ih hne]
    simp only [found, groups, List.replicate_succ, List.append_assoc, List.cons_append,
      List.nil_append]
  | pending _ below ih =>
    obtain ⟨d, ds, rfl⟩ := List.exists_cons_of_ne_nil hds
    exact ih hds

/-- At the end of the input a definition misses its body, and every open group is unclosed. -/
theorem found_unwind (config : Config) (position : Position) (stack : Stack) :
    (stack.unwind config position []).found = stack.found ++ stack.atEnd config position := by
  cases stack with
  | top scope => simp [unwind, Scope.note, found, atEnd, missing, groups]
  | group scope below =>
    have hne : scope.found ++ [] ++ [⟨position, Lexer.unclosed config⟩] ≠ [] := by simp
    rw [unwind, found_unwind_of_ne_nil config position below hne]
    simp only [found, atEnd, missing, groups, List.replicate_succ, List.append_assoc,
      List.cons_append, List.nil_append]
  | pending _ below =>
    rw [unwind, found_unwind_of_ne_nil config position below (List.cons_ne_nil _ _)]
    exact List.append_assoc ..

end Stack

/-- The problems that are found before the end of a program. -/
inductive Lexer.Interior (config : Config) : Problem → Prop where
  | numberMissing : Interior config (numberMissing config)
  | numberOverflow (digits : List Char) : Interior config (numberOverflow config digits)
  | emptyGroup : Interior config (emptyGroup config)
  | unopened : Interior config (unopened config)

namespace Machine

/-! ### Tokens and diagnostics -/

section

variable (config : Config) (t : Token) (m : Machine) (cursor : Cursor) (stack : Stack)

@[simp] theorem position_deliver : (m.deliver t).cursor.position = m.cursor.position := by
  obtain ⟨cursor, stack⟩ := m
  cases stack <;> rfl

@[simp] theorem found_deliver : (m.deliver t).stack.found = m.stack.found := by
  obtain ⟨cursor, stack⟩ := m
  cases stack <;> rfl

@[simp] theorem groups_deliver : (m.deliver t).stack.groups = m.stack.groups := by
  obtain ⟨cursor, stack⟩ := m
  cases stack <;> rfl

@[simp] theorem position_hand (r : Except Rejection Token) :
    (m.hand r).cursor.position = m.cursor.position := by
  cases r with
  | ok t => exact position_deliver t m
  | error _ => rfl

@[simp] theorem groups_hand (r : Except Rejection Token) :
    (m.hand r).stack.groups = m.stack.groups := by
  cases r with
  | ok t => exact groups_deliver t m
  | error r => exact m.stack.groups_note r.diagnostics

theorem found_hand_error (r : Rejection) :
    (m.hand (.error r)).stack.found = m.stack.found ++ r.diagnostics :=
  m.stack.found_note r.diagnostics

@[simp] theorem position_close : (close config cursor stack).cursor.position = cursor.position := by
  induction stack with
  | top _ => rfl
  | group _ _ _ => exact position_hand ..
  | pending _ _ ih => exact ih

/-- A group end delimiter closes one group, if there is one. -/
theorem groups_close : (close config cursor stack).stack.groups = stack.groups - 1 := by
  induction stack with
  | top _ => rfl
  | group _ _ _ => exact groups_hand ..
  | pending _ _ ih => exact ih

/-- A group with diagnostics passes them on to where it stands, and one without any adds its own if
it is empty. -/
theorem found_close :
    (close config cursor stack).stack.found = stack.found ∨
      (stack.innermost = some .empty ∧ (close config cursor stack).stack.found =
        stack.found ++ [⟨cursor.position, Lexer.emptyGroup config⟩]) ∨
      (stack.innermost = none ∧ (close config cursor stack).stack.found =
        stack.found ++ [⟨cursor.position, Lexer.unopened config⟩]) := by
  induction stack with
  | top scope => exact .inr (.inr ⟨rfl, rfl⟩)
  | pending _ below ih => exact ih
  | group scope below _ =>
    by_cases hfound : scope.found = []
    · obtain ⟨_ | ⟨t, ts⟩, ds⟩ := scope
      · obtain rfl : ds = [] := hfound
        refine .inr (.inl ⟨rfl, ?_⟩)
        rw [Stack.found, List.append_nil]
        exact found_hand_error ⟨cursor, below⟩ _
      · obtain rfl : ds = [] := hfound
        refine .inl ?_
        rw [Stack.found, List.append_nil]
        exact found_deliver _ ⟨cursor, below⟩
    · obtain ⟨r, hgroup, hr⟩ := Scope.group_of_found config cursor.position hfound
      refine .inl ?_
      rw [close, hgroup, found_hand_error, Rejection.diagnostics, hr, Stack.found]

end

/-! ### Steps -/

/-- What one step of the machine finds wrong. -/
inductive Notices (config : Config) : Machine → Diagnostic → Prop where
  | numberMissing {c : Char} {s : List Char} {p : Position} {macros : MacroTable} {stack : Stack}
      (h : Acts config macros c (some .numberPrefix)) (hdigits : s.takeWhile Lexer.isDigit = []) :
      Notices config ⟨⟨c :: s, p, macros⟩, stack⟩ ⟨p.advance c, Lexer.numberMissing config⟩
  | numberOverflow {c : Char} {s : List Char} {p : Position} {macros : MacroTable} {stack : Stack}
      (h : Acts config macros c (some .numberPrefix))
      (hvalue : maxNumber < Lexer.digitsValue (s.takeWhile Lexer.isDigit)) :
      Notices config ⟨⟨c :: s, p, macros⟩, stack⟩
        ⟨p.advance c, Lexer.numberOverflow config (s.takeWhile Lexer.isDigit)⟩
  | emptyGroup {c : Char} {s : List Char} {p : Position} {macros : MacroTable} {stack : Stack}
      (h : Acts config macros c (some .groupEnd)) (hempty : stack.innermost = some .empty) :
      Notices config ⟨⟨c :: s, p, macros⟩, stack⟩ ⟨p.advance c, Lexer.emptyGroup config⟩
  | unopened {c : Char} {s : List Char} {p : Position} {macros : MacroTable} {stack : Stack}
      (h : Acts config macros c (some .groupEnd)) (hnone : stack.innermost = none) :
      Notices config ⟨⟨c :: s, p, macros⟩, stack⟩ ⟨p.advance c, Lexer.unopened config⟩
  | macroMissing {c : Char} {p : Position} {macros : MacroTable} {stack : Stack}
      (h : Acts config macros c (some .macroPrefix)) :
      Notices config ⟨⟨[c], p, macros⟩, stack⟩ ⟨p.advance c, Lexer.macroMissing config⟩

/-- One step from before the character `c` consumes it, perhaps with characters behind it, and
finds one thing wrong at most. -/
structure Advances (config : Config) (c : Char) (s : List Char) (m m' : Machine) : Prop where
  cursor : ∃ eaten, s = eaten ++ m'.cursor.rest ∧
    m'.cursor.position = (m.cursor.position.advance c).advanceBy eaten
  found : m'.stack.found = m.stack.found ∨
    ∃ d, Notices config m d ∧ m'.stack.found = m.stack.found ++ [d]

/-- A step that consumes one character only, and finds nothing wrong. -/
theorem Advances.of_quiet {config : Config} {c : Char} {s : List Char} {m m' : Machine}
    (hrest : m'.cursor.rest = s) (hposition : m'.cursor.position = m.cursor.position.advance c)
    (hfound : m'.stack.found = m.stack.found) : Advances config c s m m' := by
  refine ⟨⟨[], ?_, ?_⟩, .inl hfound⟩
  · rw [List.nil_append, hrest]
  · exact hposition

/-- What a step from before a number prefix comes to. -/
theorem advances_number {config : Config} {macros : MacroTable} {c : Char}
    (h : Acts config macros c (some .numberPrefix)) (s : List Char) (p : Position)
    (stack : Stack) :
    Advances config c s ⟨⟨c :: s, p, macros⟩, stack⟩
      (hand ⟨⟨s.dropWhile Lexer.isDigit,
          (p.advance c).advanceBy (s.takeWhile Lexer.isDigit), macros⟩, stack⟩
        (Lexer.numeral config (p.advance c) (s.takeWhile Lexer.isDigit))) := by
  refine ⟨⟨s.takeWhile Lexer.isDigit, ?_, ?_⟩, ?_⟩
  · rw [rest_hand, List.takeWhile_append_dropWhile]
  · rw [position_hand]
  · rw [Lexer.numeral]
    split
    · exact .inr ⟨_, .numberMissing h ‹_›, found_hand_error ..⟩
    · split
      · exact .inl (found_deliver ..)
      · exact .inr ⟨_, .numberOverflow h (Nat.lt_of_not_le ‹_›), found_hand_error ..⟩

/-- What a step from before a group end delimiter comes to. -/
theorem advances_groupEnd {config : Config} {macros : MacroTable} {c : Char}
    (h : Acts config macros c (some .groupEnd)) (s : List Char) (p : Position) (stack : Stack) :
    Advances config c s ⟨⟨c :: s, p, macros⟩, stack⟩
      (close config ⟨s, p.advance c, macros⟩ stack) := by
  refine ⟨⟨[], ?_, ?_⟩, ?_⟩
  · rw [rest_close, List.nil_append]
  · exact position_close ..
  · rcases found_close config ⟨s, p.advance c, macros⟩ stack with
      hfound | ⟨hempty, hfound⟩ | ⟨hnone, hfound⟩
    · exact .inl hfound
    · exact .inr ⟨_, .emptyGroup h hempty, hfound⟩
    · exact .inr ⟨_, .unopened h hnone, hfound⟩

/-- What a step comes to. -/
theorem advances_step (config : Config) {c : Char} {s : List Char} {m : Machine}
    (h : m.cursor.rest = c :: s) : Advances config c s m (m.step config) := by
  obtain ⟨⟨rest, p, macros⟩, stack⟩ := m
  obtain rfl : rest = c :: s := h
  rcases hlookup : macros.lookup c with _ | t
  · rcases hrole : config.roleOf c with _ | role
    · simp only [step, hlookup, hrole]
      exact .of_quiet rfl rfl rfl
    have hacts : Acts config macros c (some role) := ⟨hlookup, hrole⟩
    cases role with
    | operator =>
      simp only [step, hlookup, hrole]
      exact .of_quiet (rest_deliver ..) (position_deliver ..) (found_deliver ..)
    | groupStart =>
      simp only [step, hlookup, hrole]
      exact .of_quiet rfl rfl (List.append_nil _)
    | groupEnd =>
      simp only [step, hlookup, hrole]
      exact advances_groupEnd hacts s p stack
    | numberPrefix =>
      simp only [step, hlookup, hrole]
      exact advances_number hacts s p stack
    | macroPrefix =>
      cases s with
      | nil =>
        simp only [step, hlookup, hrole]
        exact ⟨⟨[], rfl, rfl⟩, .inr ⟨_, .macroMissing hacts, Stack.found_note ..⟩⟩
      | cons a s =>
        simp only [step, hlookup, hrole]
        exact ⟨⟨[a], rfl, rfl⟩, .inl rfl⟩
    | escapePrefix =>
      cases s with
      | nil =>
        simp only [step, hlookup, hrole]
        exact .of_quiet rfl rfl rfl
      | cons e s =>
        simp only [step, hlookup, hrole]
        exact ⟨⟨[e], rfl, rfl⟩, .inl rfl⟩
  · simp only [step, hlookup]
    exact .of_quiet (rest_deliver ..) (position_deliver ..) (found_deliver ..)

/-! ### Runs -/

section

variable {config : Config} {text : List Char} {m : Machine} {d : Diagnostic}

/-- What is wrong is noted at the first character of a step. -/
theorem Notices.position_eq (h : Notices config m d) :
    ∃ c s, m.cursor.rest = c :: s ∧ d.position = m.cursor.position.advance c := by
  cases h <;> exact ⟨_, _, rfl, rfl⟩

/-- That a definition has no symbol is noted at the end of the text only, and drops all definitions
that wait for their bodies. -/
theorem Notices.interior_or (h : Notices config m d) :
    Lexer.Interior config d.problem ∨
      d = ⟨(m.step config).cursor.position, Lexer.macroMissing config⟩ ∧
        (m.step config).cursor.rest = [] ∧
        (m.step config).stack.missing config (m.step config).cursor.position = [] := by
  cases h with
  | numberMissing => exact .inl .numberMissing
  | numberOverflow => exact .inl (.numberOverflow _)
  | emptyGroup => exact .inl .emptyGroup
  | unopened => exact .inl .unopened
  | macroMissing h =>
    simp only [step, h.unbound, h.role]
    exact .inr ⟨rfl, rfl, Stack.missing_note ..⟩

/-- A state of the machine before some rest of a text, with diagnostics in order. -/
structure Orderly (config : Config) (text : List Char) (m : Machine) : Prop where
  reached : ∃ consumed, consumed ++ m.cursor.rest = text ∧
    m.cursor.position = Position.start.advanceBy consumed
  sorted : (m.stack.found.map Diagnostic.position).Pairwise (· ≤ ·)
  before : ∀ d ∈ m.stack.found, d.position ≤ m.cursor.position
  shape : ∃ interior, (∀ d ∈ interior, Lexer.Interior config d.problem) ∧
    (m.stack.found = interior ∨
      m.stack.found = interior ++ [⟨m.cursor.position, Lexer.macroMissing config⟩] ∧
        m.cursor.rest = [] ∧ m.stack.missing config m.cursor.position = [])

/-- The position of what is wrong is that behind some of the text. -/
theorem Notices.exists_prefix (h : Notices config m d) (hm : Orderly config text m) :
    ∃ before, before <+: text ∧ d.position = Position.start.advanceBy before := by
  obtain ⟨c, s, hrest, hd⟩ := h.position_eq
  obtain ⟨consumed, htext, hposition⟩ := hm.reached
  refine ⟨consumed ++ [c], ⟨s, ?_⟩, ?_⟩
  · rw [← htext, hrest, List.append_assoc, List.singleton_append]
  · rw [hd, hposition, Position.advanceBy_concat]

/-- All diagnostics if the input ends where the machine stands. -/
def diagnostics (config : Config) (m : Machine) : List Diagnostic :=
  m.stack.found ++ m.stack.atEnd config m.cursor.position

theorem orderly_start (config : Config) (text : List Char) : Orderly config text (start text) where
  reached := ⟨[], rfl, rfl⟩
  sorted := .nil
  before := List.forall_mem_nil _
  shape := ⟨[], List.forall_mem_nil _, .inl rfl⟩

/-- Diagnostics in order stay in order with others in order that are at later positions. -/
theorem sorted_append {ds es : List Diagnostic} {p : Position}
    (hds : (ds.map Diagnostic.position).Pairwise (· ≤ ·))
    (hes : (es.map Diagnostic.position).Pairwise (· ≤ ·))
    (hbefore : ∀ d ∈ ds, d.position ≤ p) (hafter : ∀ e ∈ es, p ≤ e.position) :
    ((ds ++ es).map Diagnostic.position).Pairwise (· ≤ ·) := by
  rw [List.map_append, List.pairwise_append]
  refine ⟨hds, hes, ?_⟩
  intro q hq q' hq'
  obtain ⟨d, hd, rfl⟩ := List.mem_map.1 hq
  obtain ⟨e, he, rfl⟩ := List.mem_map.1 hq'
  exact Position.le_trans (hbefore d hd) (hafter e he)

theorem Orderly.step (h : Orderly config text m) : Orderly config text (m.step config) := by
  rcases hrest : m.cursor.rest with _ | ⟨c, s⟩
  · rwa [step_of_nil hrest]
  obtain ⟨consumed, htext, hposition⟩ := h.reached
  obtain ⟨⟨eaten, rfl, hadvance⟩, hfound⟩ := advances_step config hrest
  have hlater : m.cursor.position.advance c ≤ (m.step config).cursor.position := by
    rw [hadvance]
    exact Position.le_advanceBy _ eaten
  have hpassed : ∀ d ∈ m.stack.found, d.position ≤ (m.step config).cursor.position := fun d hd =>
    Position.le_trans (h.before d hd) (Position.le_trans (Position.le_advance _ c) hlater)
  have hreached : ∃ consumed, consumed ++ (m.step config).cursor.rest = text ∧
      (m.step config).cursor.position = Position.start.advanceBy consumed := by
    refine ⟨consumed ++ c :: eaten, ?_, ?_⟩
    · rw [← htext, hrest, List.append_assoc, List.cons_append]
    · rw [hadvance, hposition, Position.advanceBy_append]
      rfl
  -- what is noted only at the end of the text was not noted before
  obtain ⟨interior, hinterior, heq | ⟨-, hnil, -⟩⟩ := h.shape
  · rcases hfound with hsame | ⟨d, hnotices, hmore⟩
    · refine ⟨hreached, ?_, ?_, interior, hinterior, .inl (hsame.trans heq)⟩
      · rw [hsame]
        exact h.sorted
      · rw [hsame]
        exact hpassed
    · obtain ⟨c', s', hrest', hd⟩ := hnotices.position_eq
      obtain ⟨rfl, -⟩ := List.cons.inj (hrest'.symm.trans hrest)
      refine ⟨hreached, ?_, ?_, ?_⟩
      · rw [hmore]
        have hafter : m.cursor.position ≤ d.position := hd ▸ Position.le_advance _ c'
        exact sorted_append h.sorted (List.pairwise_singleton ..) h.before
          (List.forall_mem_singleton.2 hafter)
      · rw [hmore]
        exact List.forall_mem_append.2 ⟨hpassed, List.forall_mem_singleton.2 (hd ▸ hlater)⟩
      · rw [hmore, heq]
        rcases hnotices.interior_or with hproblem | ⟨rfl, hend, hmissing⟩
        · refine ⟨interior ++ [d], ?_, .inl rfl⟩
          exact List.forall_mem_append.2 ⟨hinterior, List.forall_mem_singleton.2 hproblem⟩
        · exact ⟨interior, hinterior, .inr ⟨rfl, hend, hmissing⟩⟩
  · rw [hrest] at hnil
    cases hnil

theorem orderly_iterate (config : Config) (text : List Char) (n : Nat) :
    Orderly config text ((step config)^[n] (start text)) := by
  induction n with
  | zero => exact orderly_start config text
  | succ n ih =>
    rw [Function.iterate_succ_apply']
    exact ih.step

/-- At the end of the text the diagnostics that it adds are in order behind the others. -/
theorem Orderly.sorted_diagnostics (h : Orderly config text m) :
    ((m.diagnostics config).map Diagnostic.position).Pairwise (· ≤ ·) := by
  have hposition : ∀ p ∈ (m.stack.atEnd config m.cursor.position).map Diagnostic.position,
      p = m.cursor.position := by
    intro p hp
    obtain ⟨d, hd, rfl⟩ := List.mem_map.1 hp
    exact (Stack.mem_atEnd hd).1
  refine sorted_append h.sorted ?_ h.before fun d hd => ?_
  · refine List.pairwise_of_forall_mem_list fun p hp q hq => ?_
    rw [hposition p hp, hposition q hq]
    exact Position.le_rfl
  · rw [(Stack.mem_atEnd hd).1]
    exact Position.le_rfl

/-- A definition without a symbol and one without a body are not both left at the end of the
text. -/
theorem Orderly.shape_diagnostics (h : Orderly config text m) :
    ∃ interior missing, m.diagnostics config = interior ++ missing ++
        List.replicate m.stack.groups ⟨m.cursor.position, Lexer.unclosed config⟩ ∧
      (∀ d ∈ interior, Lexer.Interior config d.problem) ∧
      (missing = [] ∨ missing = [⟨m.cursor.position, Lexer.macroMissing config⟩]) := by
  obtain ⟨interior, hinterior, hfound | ⟨hfound, -, hmissing⟩⟩ := h.shape
  · refine ⟨interior, m.stack.missing config m.cursor.position, ?_, hinterior, ?_⟩
    · rw [diagnostics, hfound, Stack.atEnd, List.append_assoc]
    · cases m.stack with
      | top _ => exact .inl rfl
      | group _ _ => exact .inl rfl
      | pending _ _ => exact .inr rfl
  · refine ⟨interior, [⟨m.cursor.position, Lexer.macroMissing config⟩], ?_, hinterior, .inr rfl⟩
    rw [diagnostics, hfound, Stack.atEnd, hmissing, List.nil_append]

/-- Every diagnostic was noticed in a step. -/
theorem exists_notices {n : Nat} (h : d ∈ ((step config)^[n] (start text)).stack.found) :
    ∃ k, Notices config ((step config)^[k] (start text)) d := by
  induction n with
  | zero => cases h
  | succ n ih =>
    rw [Function.iterate_succ_apply'] at h
    rcases hrest : ((step config)^[n] (start text)).cursor.rest with _ | ⟨c, s⟩
    · rw [step_of_nil hrest] at h
      exact ih h
    · rcases (advances_step config hrest).found with hsame | ⟨e, hnotices, hmore⟩
      · rw [hsame] at h
        exact ih h
      · rw [hmore, List.mem_append, List.mem_singleton] at h
        rcases h with h | rfl
        · exact ih h
        · exact ⟨n, hnotices⟩

end

/-- The machine stands before a group end delimiter, behind which is `position`, and the innermost
open group, in which nothing was found, is closed by it. -/
structure ClosesEmpty (config : Config) (m : Machine) (position : Position) : Prop where
  delimiter : ∃ c s, m.cursor.rest = c :: s ∧ Acts config m.cursor.macros c (some .groupEnd) ∧
    position = m.cursor.position.advance c
  empty : m.stack.innermost = some .empty
  closed : (m.step config).stack.groups + 1 = m.stack.groups

theorem groups_pos {stack : Stack} {scope : Scope} (h : stack.innermost = some scope) :
    0 < stack.groups := by
  induction stack with
  | top _ => cases h
  | group _ _ _ => exact Nat.succ_pos _
  | pending _ _ ih => exact ih h

/-- That a group is empty is only noticed when it is closed. -/
theorem Notices.closesEmpty {config : Config} {m : Machine} {d : Diagnostic}
    (h : Notices config m d) (hd : d.problem = Lexer.emptyGroup config) :
    ClosesEmpty config m d.position := by
  cases h with
  | numberMissing => cases hd
  | numberOverflow => cases hd
  | unopened => cases hd
  | macroMissing => cases hd
  | @emptyGroup c s p macros stack h hempty =>
    refine ⟨⟨c, s, rfl, h, rfl⟩, hempty, ?_⟩
    simp only [step, h.unbound, h.role]
    rw [groups_close, Nat.sub_add_cancel (groups_pos hempty)]

end Machine

/-! ### Reports -/

/-- A program is rejected with all that was found in it. -/
theorem Scope.program_eq_rejected {scope : Scope} {r : Rejection}
    (h : scope.program = .error (.rejected r)) :
    ∃ report : Report, r = .report report ∧ report.diagnostics = scope.found := by
  obtain ⟨tokens, _ | ⟨d, ds⟩⟩ := scope
  · cases h
  · simp only [program, Report.ofList?, Except.error.injEq, Lexer.Failure.rejected.injEq] at h
    exact ⟨_, h.symm, rfl⟩

namespace Lexer

theorem Interior.ne_macroMissing {config : Config} {problem : Problem}
    (h : Interior config problem) : problem ≠ macroMissing config := by
  cases h <;> exact Problem.noConfusion

/-- No problem inside of a program and no open group is a definition without a symbol or a body. -/
theorem count_macroMissing_le {config : Config} {interior missing : List Diagnostic}
    {position : Position} (hinterior : ∀ d ∈ interior, Interior config d.problem)
    (hmissing : missing = [] ∨ missing = [⟨position, macroMissing config⟩]) (groups : Nat) :
    (List.map Diagnostic.problem (interior ++ missing ++
      List.replicate groups ⟨position, unclosed config⟩)).count (macroMissing config) ≤ 1 := by
  have hnone : (interior.map Diagnostic.problem).count (macroMissing config) = 0 := by
    rw [List.count_eq_zero]
    intro hmem
    obtain ⟨d, hd, hproblem⟩ := List.mem_map.1 hmem
    exact (hinterior d hd).ne_macroMissing hproblem
  have hunclosed : ((List.replicate groups (⟨position, unclosed config⟩ : Diagnostic)).map
      Diagnostic.problem).count (macroMissing config) = 0 := by
    rw [List.map_replicate, List.count_replicate]
    rfl
  rw [List.map_append, List.map_append, List.count_append, List.count_append, hnone, hunclosed,
    Nat.zero_add, Nat.add_zero]
  rcases hmissing with rfl | rfl
  · exact Nat.zero_le 1
  · rw [List.map_singleton, List.count_singleton]
    split <;> decide

/-- A program comes to what the machine comes to if its stack fits. -/
theorem readAll_of_fits {config : Config} {depth : Nat} {text : List Char}
    (h : (Machine.start text).Fits config depth) :
    ((ofText text).readAll config depth).1 = ((Machine.start text).final config).1 :=
  congrArg Prod.fst (((at_ofText text).readAll_final config depth).1 h)

/-- A program is rejected with what the machine has found in it. -/
theorem exists_report {config : Config} {depth : Nat} {text : List Char} {r : Rejection}
    (h : ((ofText text).readAll config depth).1 = .error (.rejected r)) :
    ∃ report : Report, r = .report report ∧
      report.diagnostics = ((Machine.start text).run config).diagnostics config := by
  by_cases hfits : (Machine.start text).Fits config depth
  · rw [readAll_of_fits hfits] at h
    obtain ⟨report, rfl, hreport⟩ := Scope.program_eq_rejected h
    rw [Stack.found_unwind] at hreport
    exact ⟨report, rfl, hreport⟩
  · rw [((at_ofText text).readAll_final config depth).2 hfits] at h
    cases h

/-- What is found in a program that is rejected is reported in the order of the text: what is wrong
inside of it, then a definition without a symbol or a body, which only the end of the text leaves so,
and then one diagnostic for every group that is open at the end. Only a group that is closed is
found empty. -/
theorem readAll_report (config : Config) (depth : Nat) (text : List Char) {r : Rejection}
    (h : ((ofText text).readAll config depth).1 = .error (.rejected r)) :
    ∃ report : Report, r = .report report ∧ report.diagnostics ≠ [] ∧
      (report.diagnostics.map Diagnostic.position).Pairwise (· ≤ ·) ∧
      (∀ d ∈ report.diagnostics, ∃ before, before <+: text ∧
        d.position = Position.start.advanceBy before) ∧
      (∃ interior missing, report.diagnostics = interior ++ missing ++
          List.replicate ((Machine.start text).run config).stack.groups
            ⟨Position.start.advanceBy text, unclosed config⟩ ∧
        (∀ d ∈ interior, Interior config d.problem) ∧
        (missing = [] ∨ missing = [⟨Position.start.advanceBy text, macroMissing config⟩])) ∧
      (report.diagnostics.map Diagnostic.problem).count (macroMissing config) ≤ 1 ∧
      ∀ d ∈ report.diagnostics, d.problem = emptyGroup config →
        ∃ k, Machine.ClosesEmpty config ((Machine.step config)^[k] (Machine.start text))
          d.position := by
  obtain ⟨report, rfl, hreport⟩ := exists_report h
  have horderly : Machine.Orderly config text ((Machine.start text).run config) :=
    Machine.orderly_iterate config text _
  have hposition : ((Machine.start text).run config).cursor.position =
      Position.start.advanceBy text := by
    obtain ⟨consumed, htext, hposition⟩ := horderly.reached
    rw [Machine.rest_run, List.append_nil] at htext
    rw [hposition, htext]
  obtain ⟨interior, missing, hshape, hinterior, hmissing⟩ := horderly.shape_diagnostics
  rw [← hreport, hposition] at hshape
  rw [hposition] at hmissing
  have hmem : ∀ d ∈ report.diagnostics,
      (∃ k, Machine.Notices config ((Machine.step config)^[k] (Machine.start text)) d) ∨
        d.position = Position.start.advanceBy text ∧ d.problem ≠ emptyGroup config := by
    intro d hd
    rw [hreport, Machine.diagnostics, List.mem_append] at hd
    rcases hd with hd | hd
    · exact .inl (Machine.exists_notices hd)
    · rw [← hposition]
      exact .inr (Stack.mem_atEnd hd)
  refine ⟨report, rfl, report.nonempty, ?_, ?_, ⟨interior, missing, hshape, hinterior, hmissing⟩,
    ?_, ?_⟩
  · rw [hreport]
    exact horderly.sorted_diagnostics
  · intro d hd
    rcases hmem d hd with ⟨k, hnotices⟩ | ⟨hend, -⟩
    · exact hnotices.exists_prefix (Machine.orderly_iterate config text k)
    · exact ⟨text, List.prefix_rfl, hend⟩
  · rw [hshape]
    exact count_macroMissing_le hinterior hmissing _
  · intro d hd hproblem
    rcases hmem d hd with ⟨k, hnotices⟩ | ⟨-, hne⟩
    · exact ⟨k, hnotices.closesEmpty hproblem⟩
    · exact absurd hproblem hne

/-- A number without digits, a group end without a group, an empty group and a definition without a
symbol, with two open groups around it. -/
theorem readAll_report_open :
    let text := ['#', ')', '(', '(', ')', '(', '$']
    let found : List Diagnostic :=
      [⟨⟨1, 1⟩, numberMissing .standard⟩, ⟨⟨1, 2⟩, unopened .standard⟩,
        ⟨⟨1, 5⟩, emptyGroup .standard⟩, ⟨⟨1, 7⟩, macroMissing .standard⟩,
        ⟨⟨1, 7⟩, unclosed .standard⟩, ⟨⟨1, 7⟩, unclosed .standard⟩]
    ∃ report : Report,
      ((ofText text).readAll .standard nestingLimit).1 = .error (.rejected (.report report)) ∧
      report.diagnostics = found ∧ (found.map Diagnostic.position).Pairwise (· ≤ ·) ∧
      ∃ k, Machine.ClosesEmpty .standard ((Machine.step .standard)^[k] (Machine.start text))
        ⟨1, 5⟩ := by
  intro text found
  have hfits : (Machine.start text).Fits .standard nestingLimit :=
    Machine.fits_of_length (by decide)
  have hfinal : ((Machine.start text).final .standard).1 =
      .error (.rejected (.report ⟨found, List.cons_ne_nil _ _⟩)) := rfl
  have hread := (readAll_of_fits hfits).trans hfinal
  obtain ⟨report, hreport, -, hsorted, -, -, -, hempty⟩ :=
    readAll_report .standard nestingLimit text hread
  obtain rfl := Rejection.report.inj hreport
  have hmem : (⟨⟨1, 5⟩, emptyGroup .standard⟩ : Diagnostic) ∈ found :=
    .tail _ (.tail _ (.head _))
  exact ⟨_, hread, rfl, hsorted, hempty _ hmem rfl⟩

end Lexer

end Unroll
