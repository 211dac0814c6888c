import Unroll.Proofs.Sessions
import Unroll.Proofs.Writing

/-!
# The alphabet of a program

A macro is bound to a token that was read, and a token that is read may come from a macro. Neither
brings in anything but what the configuration allows, in whatever order the readers are called and
whatever fails on the way, so that nothing else can be written for a program.

* `Lexer.Answer.Holds` — the tokens that an operation on a lexer hands out have a property;
* `Lexer.Keeps.answers` — a session hands out what the readers make;
* `program_wellFormed` — tokens, macros and outputs of programs have nothing that the configuration
  does not allow.
-/

namespace Unroll

namespace Lexer

/-- The tokens that an operation hands out have a property. -/
def Answer.Holds (Made : Token → Prop) : Answer → Prop
  | .character _ | .definition _ => True
  | .part result => ∀ t, result = .ok t → Made t
  | .item result => ∀ t, result = .ok (.token t) → Made t
  | .token result => ∀ t, result = .ok (some t) → Made t
  | .tokens result => ∀ ts, result = .ok ts → ∀ t ∈ ts, Made t

section

variable {config : Config} {State : Lexer → Prop} {Made : Token → Prop} {Found : Diagnostic → Prop}
  {l : Lexer}

/-- A walk hands out what the readers make, and nothing when it is over. -/
theorem Keeps.walk_made (h : Keeps config State Made Found) (depth : Nat) (walk : Iteration)
    (hl : State l) : ∀ t, (walk.next config depth l).1 = .ok (some t) → Made t := by
  intro t ht
  rcases walk with _ | _
  · have htoken := h.tokenIn l.steps depth hl
    rw [Iteration.next] at ht
    rcases hread : l.readToken config depth with ⟨e | _ | u, l'⟩
    · rw [hread] at ht
      cases ht
    · rw [hread] at ht
      cases ht
    · rw [hread] at ht
      obtain rfl := Option.some.inj (Except.ok.inj ht)
      rw [readToken] at hread
      rw [hread] at htoken
      exact htoken.made rfl u rfl
  · cases ht

/-- An operation hands out what the readers make. -/
theorem Keeps.answer (h : Keeps config State Made Found) (depth : Nat) {s : Session}
    (hs : State s.lexer) (op : Operation) : (s.perform config depth op).1.Holds Made := by
  let steps := s.lexer.steps
  have hnone : ∀ t ∈ ([] : List Token), Made t := List.forall_mem_nil _
  cases op with
  | peek => trivial
  | next => trivial
  | readDefinition => trivial
  | readNumber => exact fun t ht => (h.numberIn steps hs).made ht
  | readItem => exact fun t ht => ((h.readers steps).item depth hs).made ht
  | readGroup =>
    exact fun t ht => ((h.readers steps).group depth hs hnone (List.forall_mem_nil _)).made ht
  | readToken => exact fun t ht => (h.tokenIn steps depth hs).made ht t rfl
  | readAll =>
    exact fun ts hts => (h.allIn steps depth steps hs hnone (List.forall_mem_nil _)).made hts
  | readList => exact fun ts hts => (h.listIn steps depth steps hs hnone).made hts
  | walk number => exact h.walk_made depth (s.walks number) hs

/-- A session hands out what the readers make. -/
theorem Keeps.answers (h : Keeps config State Made Found) (depth : Nat) (ops : List Operation)
    {s : Session} (hs : State s.lexer) :
    ∀ answer ∈ (s.run config depth ops).1, answer.Holds Made := by
  induction ops generalizing s with
  | nil => exact List.forall_mem_nil _
  | cons op ops ih =>
    rw [Session.run]
    exact List.forall_mem_cons.2 ⟨h.answer depth hs op, ih (h.perform depth hs op)⟩

end

end Lexer

/-- Every token that is handed out, and every body that a macro is bound to, has numbers that are
not too large, operators of the configuration and groups that are not empty only, at every depth,
after any operations on a lexer in any order, also after some that have failed. The end of a group
is none of these, so that it is neither bound nor put in a group. The tokens of a program are
therefore never found to be no tokens when they are written, and nothing but operators, and the ends
of lines if there are any, comes to where the output goes. -/
theorem program_wellFormed (config : Config) (depth : Nat) :
    (∀ (source : Source) (ops : List Lexer.Operation),
      (∀ answer ∈ ((Lexer.Session.start source).run config depth ops).1,
        answer.Holds (Token.WellFormed config)) ∧
      ((Lexer.Session.start source).run config depth ops).2.lexer.macros.WellFormed config) ∧
    (∀ (files : Files) (origin : Origin) (ts : List Token),
      (tokenizeFrom files config depth origin).1 = .ok ts →
      (∀ t ∈ ts, t.WellFormed config) ∧
      ∀ (limit : Nat) (multiplier : Int) (w : Writer) (v : Json.Value),
        (writeTokens ts limit multiplier w).1 ≠ .error (.foreign v)) ∧
    (∀ (files : Files) (origin : Origin) (target : Target) (lineWidth : Option Int),
      target.Given (config.Writes lineWidth.isSome) files
        (preprocess files depth origin target config lineWidth).files
        (preprocess files depth origin target config lineWidth).target) := by
  have hkeeps := Lexer.keeps_wellFormed config
  have hempty := MacroTable.wellFormed_empty config
  refine ⟨fun source ops => ⟨?_, ?_⟩, fun files origin ts hread => ⟨?_, ?_⟩,
    fun files origin target lineWidth => ?_⟩
  · exact hkeeps.answers depth ops (s := .start source) hempty
  · exact hkeeps.run depth ops (s := .start source) hempty
  · exact tokenizeFrom_wellFormed hread
  · intro limit multiplier w v
    exact ((Writer.keeps_anything _).writeTokens (tokenizeFrom_over true hread) limit multiplier
      trivial).genuine v
  · exact (preprocess_given files depth origin target config lineWidth).1

/-- The tokens of a program in which a symbol is bound to a group, and multiplied. -/
theorem program_wellFormed_multiplied :
    let stream : Stream := ⟨['$', 'a', '(', '+', '#', '2', '-', ')', '#', '3', 'a'], .quiet⟩
    let ts := [.number 3, .group [.operator "+", .number 2, .operator "-"]]
    (tokenizeFrom .empty .standard Lexer.nestingLimit (.stream stream)).1 = .ok ts ∧
      (∀ t ∈ ts, t.WellFormed .standard) ∧
      ∀ (limit : Nat) (multiplier : Int) (w : Writer) (v : Json.Value),
        (writeTokens ts limit multiplier w).1 ≠ .error (.foreign v) := by
  intro stream ts
  have hread : (tokenizeFrom .empty .standard Lexer.nestingLimit (.stream stream)).1 = .ok ts := rfl
  exact ⟨hread,
    (program_wellFormed .standard Lexer.nestingLimit).2.1 .empty (.stream stream) ts hread⟩

end Unroll
