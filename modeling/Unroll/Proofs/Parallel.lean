import Unroll.Proofs.Renaming
import Unroll.Lexer.Program

/-!
# Two lexers side by side

All that a reader learns of its lexer are the next character, what it is bound to and the position,
and all that it learns of a configuration are the roles of characters. Two lexers for which these
correspond, but for a renaming of characters, come to corresponding results and correspond in the
end.

* `Lexer.Parallel` — a correspondence between lexers that looking at characters, consuming them and
  binding symbols keep, under two configurations that give corresponding characters the same role;
* `Lexer.Paired` — two readers have come to corresponding results;
* `Lexer.Parallel.readers`, `Lexer.Parallel.readAll` — every reader does.
-/

namespace Unroll

/-- A result of the lexer with all symbols renamed. -/
def Renaming.result {α β : Type} (p : Renaming) (f : α → β) :
    Except Lexer.Failure α → Except Lexer.Failure β
  | .ok a => .ok (f a)
  | .error e => .error (p.refusal e)

/-- An item with all symbols renamed. -/
def Renaming.item (p : Renaming) : Lexer.Item → Lexer.Item
  | .token t => .token (p.token t)
  | .groupEnd => .groupEnd
  | .inputEnd => .inputEnd

/-- A character that was asked for, renamed. -/
def Renaming.character (p : Renaming) : Except Fault (Option Char) → Except Fault (Option Char)
  | .ok c => .ok (c.map p)
  | .error f => .error f

namespace Lexer

/-- What was done with one lexer has come to the same as with another, renamed by `f`, and the
lexers correspond after that. -/
structure Paired {α β : Type} (f : α → β) (Both : Lexer → Lexer → Prop) (read : α × Lexer)
    (read' : β × Lexer) : Prop where
  result : read'.1 = f read.1
  lexers : Both read.2 read'.2

/-- A correspondence between lexers under two configurations, up to a renaming, that is kept by
looking at characters, consuming them and binding symbols. -/
structure Parallel (p : Renaming) (config config' : Config) (Both : Lexer → Lexer → Prop) :
    Prop where
  role (c : CodePoint) : config'.roleOf (p.point c) = config.roleOf c
  steps {l l' : Lexer} (h : Both l l') : l'.steps = l.steps
  position {l l' : Lexer} (h : Both l l') : l'.position = l.position
  lookup {l l' : Lexer} (h : Both l l') (c : Char) :
    l'.macros.lookup (p c) = (l.macros.lookup c).map p.token
  peek {l l' : Lexer} (h : Both l l') : Paired p.character Both l.peek l'.peek
  consume {l l' l₁ l₁' : Lexer} {c : Char} (h : Both l l') (hpeek : l.peek = (.ok (some c), l₁))
    (hpeek' : l'.peek = (.ok (some (p c)), l₁')) : Both (l₁.consume c) (l₁'.consume (p c))
  bindMacro {l l' : Lexer} (h : Both l l') (symbol : Char) (body : Token) :
    Both (l.bindMacro symbol body) (l'.bindMacro (p symbol) (p.token body))

section

variable {p : Renaming} {config config' : Config} {Both : Lexer → Lexer → Prop} {l l' : Lexer}

theorem Paired.exists {α β : Type} {f : α → β} {a : α} {read' : β × Lexer}
    (h : Paired f Both (a, l) read') : ∃ l', read' = (f a, l') ∧ Both l l' :=
  ⟨read'.2, Prod.ext h.result rfl, h.lexers⟩

/-! ### The symbols of a configuration -/

/-- The symbols for a role correspond, since the roles of characters do. -/
theorem Parallel.mem_symbols (h : Parallel p config config' Both) {role : Role} {c : CodePoint}
    (hc : c ∈ config.symbols role) : p.point c ∈ config'.symbols role := by
  rw [← Config.roleOf_eq_some_iff, h.role]
  exact Config.roleOf_eq_some_iff.2 hc

/-- The symbols that stand in diagnostics correspond. -/
theorem Parallel.symbols (h : Parallel p config config' Both) :
    config'.groupStart = p.point config.groupStart ∧ config'.groupEnd = p.point config.groupEnd ∧
      config'.numberPrefix = p.point config.numberPrefix ∧
      config'.macroPrefix = p.point config.macroPrefix := by
  have hsingle : ∀ {role : Role} {c c' : CodePoint}, config.symbols role = [c] →
      config'.symbols role = [c'] → c' = p.point c := by
    intro role c c' hc hc'
    have hmem : p.point c ∈ config'.symbols role := by
      refine h.mem_symbols ?_
      rw [hc]
      exact List.mem_singleton_self c
    rw [hc'] at hmem
    exact (List.mem_singleton.1 hmem).symm
  have hstart : config'.groupStart = p.point config.groupStart :=
    hsingle (show config.symbols .groupStart = _ from rfl) rfl
  have hend : config'.groupEnd = p.point config.groupEnd :=
    hsingle (show config.symbols .groupEnd = _ from rfl) rfl
  have hnumber : config'.numberPrefix = p.point config.numberPrefix :=
    hsingle (show config.symbols .numberPrefix = _ from rfl) rfl
  have hmacro : config'.macroPrefix = p.point config.macroPrefix :=
    hsingle (show config.symbols .macroPrefix = _ from rfl) rfl
  exact ⟨hstart, hend, hnumber, hmacro⟩

theorem Parallel.unopened (h : Parallel p config config' Both) :
    unopened config' = p.problem (unopened config) := by
  obtain ⟨hstart, hend, -, -⟩ := h.symbols
  simp only [Lexer.unopened, Renaming.problem, Renaming.codeText_singleton, hstart, hend]

theorem Parallel.unclosed (h : Parallel p config config' Both) :
    unclosed config' = p.problem (unclosed config) := by
  obtain ⟨hstart, hend, -, -⟩ := h.symbols
  simp only [Lexer.unclosed, Renaming.problem, Renaming.codeText_singleton, hstart, hend]

theorem Parallel.emptyGroup (h : Parallel p config config' Both) :
    emptyGroup config' = p.problem (emptyGroup config) := by
  obtain ⟨hstart, hend, -, -⟩ := h.symbols
  simp only [Lexer.emptyGroup, Renaming.problem, Renaming.codeText_singleton, hstart, hend]

theorem Parallel.numberMissing (h : Parallel p config config' Both) :
    numberMissing config' = p.problem (numberMissing config) := by
  obtain ⟨-, -, hnumber, -⟩ := h.symbols
  simp only [Lexer.numberMissing, Renaming.problem, Renaming.codeText_singleton, hnumber]

theorem Parallel.numberOverflow (h : Parallel p config config' Both) (digits : List Char) :
    numberOverflow config' digits = p.problem (numberOverflow config digits) := by
  obtain ⟨-, -, hnumber, -⟩ := h.symbols
  simp only [Lexer.numberOverflow, Renaming.problem, Renaming.codeText_singleton, hnumber]

theorem Parallel.macroMissing (h : Parallel p config config' Both) :
    macroMissing config' = p.problem (macroMissing config) := by
  obtain ⟨-, -, -, hmacro⟩ := h.symbols
  simp only [Lexer.macroMissing, Renaming.problem, Renaming.codeText_singleton, hmacro]

theorem Parallel.reject {α β : Type} (h : Parallel p config config' Both) (hl : Both l l')
    (f : α → β) (problem : Problem) :
    l'.reject (p.problem problem) = p.result f (l.reject problem) := by
  simp only [Lexer.reject, rejectAt, Renaming.result, Renaming.refusal, Renaming.rejection,
    Renaming.diagnostic, h.position hl]

/-! ### Characters and numbers -/

theorem Parallel.next (h : Parallel p config config' Both) (hl : Both l l') :
    Paired p.character Both l.next l'.next := by
  have hpeeked := h.peek hl
  rcases hpeek : l.peek with ⟨f | _ | c, l₁⟩
  · rw [hpeek] at hpeeked
    obtain ⟨l₁', hpeek', h₁⟩ := hpeeked.exists
    simp only [Lexer.next, hpeek, hpeek', Renaming.character]
    exact ⟨rfl, h₁⟩
  · rw [hpeek] at hpeeked
    obtain ⟨l₁', hpeek', h₁⟩ := hpeeked.exists
    simp only [Lexer.next, hpeek, hpeek', Renaming.character, Option.map_none]
    exact ⟨rfl, h₁⟩
  · rw [hpeek] at hpeeked
    obtain ⟨l₁', hpeek', -⟩ := hpeeked.exists
    simp only [Lexer.next, hpeek, hpeek', Renaming.character, Option.map_some]
    exact ⟨rfl, h.consume hl hpeek hpeek'⟩

/-- The digits that are taken are the same: no digit is renamed. -/
theorem Parallel.takeDigits (h : Parallel p config config' Both) (hl : Both l l') (steps : Nat)
    (done : List Char) : Paired id Both (takeDigits steps done l) (takeDigits steps done l') := by
  induction steps generalizing l l' done with
  | zero => exact ⟨rfl, hl⟩
  | succ steps ih =>
    have hpeeked := h.peek hl
    rcases hpeek : l.peek with ⟨f | _ | c, l₁⟩
    · rw [hpeek] at hpeeked
      obtain ⟨l₁', hpeek', h₁⟩ := hpeeked.exists
      simp only [Lexer.takeDigits, hpeek, hpeek', Renaming.character]
      exact ⟨rfl, h₁⟩
    · rw [hpeek] at hpeeked
      obtain ⟨l₁', hpeek', h₁⟩ := hpeeked.exists
      simp only [Lexer.takeDigits, hpeek, hpeek', Renaming.character, Option.map_none]
      exact ⟨rfl, h₁⟩
    · rw [hpeek] at hpeeked
      obtain ⟨l₁', hpeek', h₁⟩ := hpeeked.exists
      simp only [Lexer.takeDigits, hpeek, hpeek', Renaming.character, Option.map_some,
        Renaming.isDigit_apply]
      by_cases hc : isDigit c = true
      · have hconsumed := h.consume hl hpeek hpeek'
        rw [if_pos hc, if_pos hc]
        rw [p.digit hc] at hconsumed ⊢
        exact ih hconsumed (c :: done)
      · rw [if_neg hc, if_neg hc]
        exact ⟨rfl, h₁⟩

theorem Parallel.numberIn (h : Parallel p config config' Both) (hl : Both l l') (steps : Nat) :
    Paired (p.result p.token) Both (numberIn config steps l) (numberIn config' steps l') := by
  have htaken := h.takeDigits hl steps []
  rcases htake : Lexer.takeDigits steps [] l with ⟨f | digits, l₁⟩
  · rw [htake] at htaken
    obtain ⟨l₁', htake', h₁⟩ := htaken.exists
    simp only [Lexer.numberIn, htake, htake', id]
    exact ⟨rfl, h₁⟩
  · rw [htake] at htaken
    obtain ⟨l₁', htake', h₁⟩ := htaken.exists
    cases digits with
    | nil =>
      simp only [Lexer.numberIn, htake, htake', id, h.numberMissing]
      exact ⟨h.reject hl .., h₁⟩
    | cons d ds =>
      simp only [Lexer.numberIn, htake, htake', id]
      cases boundedValue? (d :: ds) with
      | none =>
        simp only [h.numberOverflow]
        exact ⟨h.reject hl .., h₁⟩
      | some n => exact ⟨rfl, h₁⟩

/-- What a group comes to at its end. -/
theorem Parallel.finishGroup (h : Parallel p config config' Both) (hl : Both l l')
    (tokens : List Token) (found : List Diagnostic) :
    finishGroup config' (tokens.map p.token) (found.map p.diagnostic) l' =
      p.result p.token (finishGroup config tokens found l) := by
  simp only [Lexer.finishGroup, ← List.map_reverse, p.ofList?_map, List.isEmpty_map, h.emptyGroup]
  cases Report.ofList? found.reverse with
  | some r => rfl
  | none =>
    simp only [Option.map_none]
    split
    · exact h.reject hl p.token _
    · rw [Renaming.result, Renaming.token_group]

/-! ### The readers -/

/-- With so many steps, the readers come to corresponding results. -/
structure ReadersPaired (p : Renaming) (config config' : Config) (Both : Lexer → Lexer → Prop)
    (steps : Nat) : Prop where
  item (depth : Nat) {l l' : Lexer} (hl : Both l l') :
    Paired (p.result p.item) Both (itemIn config steps depth l) (itemIn config' steps depth l')
  definition (depth : Nat) {l l' : Lexer} (hl : Both l l') :
    Paired (p.result id) Both (definitionIn config steps depth l)
      (definitionIn config' steps depth l')
  group (depth : Nat) (tokens : List Token) (found : List Diagnostic) {l l' : Lexer}
    (hl : Both l l') :
    Paired (p.result p.token) Both (groupIn config steps depth tokens found l)
      (groupIn config' steps depth (tokens.map p.token) (found.map p.diagnostic) l')

theorem Parallel.itemIn_succ (h : Parallel p config config' Both) {steps : Nat}
    (ih : ReadersPaired p config config' Both steps) (depth : Nat) (hl : Both l l') :
    Paired (p.result p.item) Both (itemIn config (steps + 1) depth l)
      (itemIn config' (steps + 1) depth l') := by
  cases depth with
  | zero =>
    simp only [itemIn]
    exact ⟨rfl, hl⟩
  | succ depth =>
    have hpaired := h.next hl
    rcases hnext : l.next with ⟨f | _ | c, l₁⟩
    · rw [hnext] at hpaired
      obtain ⟨l₁', hnext', h₁⟩ := hpaired.exists
      simp only [itemIn, hnext, hnext', Renaming.character]
      exact ⟨rfl, h₁⟩
    · rw [hnext] at hpaired
      obtain ⟨l₁', hnext', h₁⟩ := hpaired.exists
      simp only [itemIn, hnext, hnext', Renaming.character, Option.map_none]
      exact ⟨rfl, h₁⟩
    rw [hnext] at hpaired
    obtain ⟨l₁', hnext', h₁⟩ := hpaired.exists
    rw [Renaming.character, Option.map_some] at hnext'
    have hlookup := h.lookup h₁ c
    have hsame : config'.roleOf (p c) = config.roleOf c := h.role c
    rcases hbound : l₁.macros.lookup c with _ | t
    · rw [hbound, Option.map_none] at hlookup
      rcases hrole : config.roleOf c with _ | role
      · rw [hrole] at hsame
        simp only [itemIn, hnext, hnext', hbound, hlookup, hrole, hsame]
        exact ih.item (depth + 1) h₁
      rw [hrole] at hsame
      cases role with
      | operator =>
        simp only [itemIn, hnext, hnext', hbound, hlookup, hrole, hsame]
        refine ⟨?_, h₁⟩
        rw [Renaming.result, Renaming.item, Renaming.token, Renaming.text_singleton]
      | groupEnd =>
        simp only [itemIn, hnext, hnext', hbound, hlookup, hrole, hsame]
        exact ⟨rfl, h₁⟩
      | escapePrefix =>
        have hskipped := h.next h₁
        rcases hskip : l₁.next with ⟨f | c', l₂⟩
        · rw [hskip] at hskipped
          obtain ⟨l₂', hskip', h₂⟩ := hskipped.exists
          simp only [itemIn, hnext, hnext', hbound, hlookup, hrole, hsame, hskip, hskip']
          exact ⟨rfl, h₂⟩
        · rw [hskip] at hskipped
          obtain ⟨l₂', hskip', h₂⟩ := hskipped.exists
          simp only [itemIn, hnext, hnext', hbound, hlookup, hrole, hsame, hskip, hskip']
          exact ih.item (depth + 1) h₂
      | numberPrefix =>
        have hnumber := h.numberIn h₁ steps
        rcases hread : Lexer.numberIn config steps l₁ with ⟨e | t, l₂⟩
        all_goals
          rw [hread] at hnumber
          obtain ⟨l₂', hread', h₂⟩ := hnumber.exists
          simp only [itemIn, hnext, hnext', hbound, hlookup, hrole, hsame, hread, hread',
            Renaming.result]
          exact ⟨rfl, h₂⟩
      | macroPrefix =>
        have hdefinition := ih.definition depth h₁
        rcases hread : definitionIn config steps depth l₁ with ⟨e | _ | _, l₂⟩
        all_goals
          rw [hread] at hdefinition
          obtain ⟨l₂', hread', h₂⟩ := hdefinition.exists
          simp only [itemIn, hnext, hnext', hbound, hlookup, hrole, hsame, hread, hread',
            Renaming.result, id]
        · exact ⟨rfl, h₂⟩
        · exact ih.item (depth + 1) h₂
        · exact ⟨rfl, h₂⟩
      | groupStart =>
        have hgroup := ih.group depth [] [] h₁
        rw [List.map_nil, List.map_nil] at hgroup
        rcases hread : groupIn config steps depth [] [] l₁ with ⟨e | t, l₂⟩
        all_goals
          rw [hread] at hgroup
          obtain ⟨l₂', hread', h₂⟩ := hgroup.exists
          simp only [itemIn, hnext, hnext', hbound, hlookup, hrole, hsame, hread, hread',
            Renaming.result]
          exact ⟨rfl, h₂⟩
    · rw [hbound, Option.map_some] at hlookup
      simp only [itemIn, hnext, hnext', hbound, hlookup]
      exact ⟨rfl, h₁⟩

theorem Parallel.definitionIn_succ (h : Parallel p config config' Both) {steps : Nat}
    (ih : ReadersPaired p config config' Both steps) (depth : Nat) (hl : Both l l') :
    Paired (p.result id) Both (definitionIn config (steps + 1) depth l)
      (definitionIn config' (steps + 1) depth l') := by
  cases depth with
  | zero =>
    simp only [definitionIn]
    exact ⟨rfl, hl⟩
  | succ depth =>
    have hpaired := h.next hl
    rcases hnext : l.next with ⟨f | _ | symbol, l₁⟩
    · rw [hnext] at hpaired
      obtain ⟨l₁', hnext', h₁⟩ := hpaired.exists
      simp only [definitionIn, hnext, hnext', Renaming.character]
      exact ⟨rfl, h₁⟩
    · rw [hnext] at hpaired
      obtain ⟨l₁', hnext', h₁⟩ := hpaired.exists
      simp only [definitionIn, hnext, hnext', Renaming.character, Option.map_none, h.macroMissing]
      exact ⟨h.reject h₁ .., h₁⟩
    rw [hnext] at hpaired
    obtain ⟨l₁', hnext', h₁⟩ := hpaired.exists
    rw [Renaming.character, Option.map_some] at hnext'
    have hbody := ih.item depth h₁
    rcases hread : itemIn config steps depth l₁ with ⟨e | body | _ | _, l₂⟩
    all_goals
      rw [hread] at hbody
      obtain ⟨l₂', hread', h₂⟩ := hbody.exists
      simp only [definitionIn, hnext, hnext', hread, hread', Renaming.result, Renaming.item]
    · exact ⟨rfl, h₂⟩
    · exact ⟨rfl, h.bindMacro h₂ symbol body⟩
    · exact ⟨rfl, h₂⟩
    · rw [h.macroMissing]
      exact ⟨h.reject h₂ .., h₂⟩

theorem Parallel.groupIn_succ (h : Parallel p config config' Both) {steps : Nat}
    (ih : ReadersPaired p config config' Both steps) (depth : Nat) (tokens : List Token)
    (found : List Diagnostic) (hl : Both l l') :
    Paired (p.result p.token) Both (groupIn config (steps + 1) depth tokens found l)
      (groupIn config' (steps + 1) depth (tokens.map p.token) (found.map p.diagnostic) l') := by
  cases depth with
  | zero =>
    simp only [groupIn]
    exact ⟨rfl, hl⟩
  | succ depth =>
    have hitem := ih.item depth hl
    rcases hread : itemIn config steps depth l with ⟨(r | f | _) | (t | _ | _), l₁⟩
    all_goals
      rw [hread] at hitem
      obtain ⟨l₁', hread', h₁⟩ := hitem.exists
      simp only [groupIn, hread, hread', Renaming.result, Renaming.refusal, Renaming.item]
    · have hgroup := ih.group (depth + 1) tokens (r.diagnostics.reverse ++ found) h₁
      rwa [List.map_append, List.map_reverse, ← p.diagnostics_rejection] at hgroup
    · exact ⟨rfl, h₁⟩
    · exact ⟨rfl, h₁⟩
    · exact ih.group (depth + 1) (t :: tokens) found h₁
    · exact ⟨h.finishGroup h₁ tokens found, h₁⟩
    · refine ⟨?_, h₁⟩
      rw [← h.finishGroup h₁, List.map_cons, Renaming.diagnostic, h.position h₁, h.unclosed]

/-- The readers come to corresponding results, whatever their steps. -/
theorem Parallel.readers (h : Parallel p config config' Both) (steps : Nat) :
    ReadersPaired p config config' Both steps := by
  induction steps with
  | zero =>
    refine ⟨fun depth l l' hl => ?_, fun depth l l' hl => ?_,
      fun depth tokens found l l' hl => ?_⟩
    · rw [itemIn, itemIn]
      exact ⟨rfl, hl⟩
    · rw [definitionIn, definitionIn]
      exact ⟨rfl, hl⟩
    · rw [groupIn, groupIn]
      exact ⟨h.finishGroup hl tokens found, hl⟩
  | succ steps ih =>
    exact ⟨fun depth _ _ hl => h.itemIn_succ ih depth hl,
      fun depth _ _ hl => h.definitionIn_succ ih depth hl,
      fun depth tokens found _ _ hl => h.groupIn_succ ih depth tokens found hl⟩

/-! ### Whole programs -/

theorem Parallel.tokenIn (h : Parallel p config config' Both) (steps depth : Nat)
    (hl : Both l l') :
    Paired (p.result (Option.map p.token)) Both (tokenIn config steps depth l)
      (tokenIn config' steps depth l') := by
  have hitem := (h.readers steps).item depth hl
  rcases hread : itemIn config steps depth l with ⟨e | t | _ | _, l₁⟩
  all_goals
    rw [hread] at hitem
    obtain ⟨l₁', hread', h₁⟩ := hitem.exists
    simp only [Lexer.tokenIn, hread, hread', Renaming.result, Renaming.item]
  · exact ⟨rfl, h₁⟩
  · exact ⟨rfl, h₁⟩
  · rw [h.unopened]
    exact ⟨h.reject h₁ .., h₁⟩
  · exact ⟨rfl, h₁⟩

theorem Parallel.allIn (h : Parallel p config config' Both) (steps depth rounds : Nat)
    (tokens : List Token) (found : List Diagnostic) (hl : Both l l') :
    Paired (p.result (List.map p.token)) Both (allIn config steps depth rounds tokens found l)
      (allIn config' steps depth rounds (tokens.map p.token) (found.map p.diagnostic) l') := by
  induction rounds generalizing l l' tokens found with
  | zero =>
    rw [Lexer.allIn, Lexer.allIn, ← List.map_reverse]
    exact ⟨rfl, hl⟩
  | succ rounds ih =>
    have htoken := h.tokenIn steps depth hl
    rcases hread : Lexer.tokenIn config steps depth l with ⟨(r | f | _) | (_ | t), l₁⟩
    all_goals
      rw [hread] at htoken
      obtain ⟨l₁', hread', h₁⟩ := htoken.exists
      simp only [Lexer.allIn, hread, hread', Renaming.result, Renaming.refusal]
    · have hrest := ih tokens (r.diagnostics.reverse ++ found) h₁
      rwa [List.map_append, List.map_reverse, ← p.diagnostics_rejection] at hrest
    · exact ⟨rfl, h₁⟩
    · exact ⟨rfl, h₁⟩
    · rw [Option.map_none, ← List.map_reverse, ← List.map_reverse, p.ofList?_map]
      cases Report.ofList? found.reverse with
      | some r => exact ⟨rfl, h₁⟩
      | none => exact ⟨rfl, h₁⟩
    · exact ih (t :: tokens) found h₁

/-- Two lexers that correspond read corresponding programs. -/
theorem Parallel.readAll (h : Parallel p config config' Both) (depth : Nat) (hl : Both l l') :
    Paired (p.result (List.map p.token)) Both (l.readAll config depth)
      (l'.readAll config' depth) := by
  rw [Lexer.readAll, Lexer.readAll, h.steps hl]
  exact h.allIn l.steps depth l.steps [] [] hl

end

end Lexer

end Unroll
