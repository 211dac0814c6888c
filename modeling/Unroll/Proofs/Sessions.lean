import Mathlib.Data.List.Forall2
import Unroll.Lexer.Session
import Unroll.Proofs.Characters
import Unroll.Proofs.Invariants
import Unroll.Proofs.Positions

/-!
# Sessions

Whatever is asked of a lexer, in any order, and also after something has failed, no character is
lost.

* `Lexer.Keeps.run` — a session keeps what the readers keep;
* `Lexer.Consumes` — the characters that a lexer consumes on the way to another state;
* `Lexer.Session.run_hands` — the operations of a session hand out the characters that they consume;
* `Lexer.Session.run_consumed` — no character is lost, repeated or reordered, and the position is
  that of the characters consumed.
-/

namespace Unroll

namespace Lexer

/-! ### What a session keeps -/

section

variable {config : Config} {State : Lexer → Prop} {Made : Token → Prop} {Found : Diagnostic → Prop}
  {l : Lexer}

theorem Keeps.next (h : Keeps config State Made Found) (hl : State l) : State l.next.2 :=
  h.of_next hl rfl

theorem Keeps.walk (h : Keeps config State Made Found) (depth : Nat) (walk : Iteration)
    (hl : State l) : State (walk.next config depth l).2.2 := by
  rcases walk with _ | _
  · have htoken := h.tokenIn l.steps depth hl
    rw [Iteration.next]
    rcases hread : l.readToken config depth with ⟨e | _ | t, l'⟩
    all_goals
      rw [readToken] at hread
      rw [hread] at htoken
      exact htoken.state
  · exact hl

theorem Keeps.perform (h : Keeps config State Made Found) (depth : Nat) {s : Session}
    (hs : State s.lexer) (op : Operation) : State (s.perform config depth op).2.lexer := by
  let steps := s.lexer.steps
  cases op with
  | peek => exact h.peek hs
  | next => exact h.next hs
  | readNumber => exact (h.numberIn steps hs).state
  | readItem => exact ((h.readers steps).item depth hs).state
  | readDefinition => exact ((h.readers steps).definition depth hs).state
  | readGroup =>
    exact ((h.readers steps).group depth hs (List.forall_mem_nil _) (List.forall_mem_nil _)).state
  | readToken => exact (h.tokenIn steps depth hs).state
  | readAll =>
    exact (h.allIn steps depth steps hs (List.forall_mem_nil _) (List.forall_mem_nil _)).state
  | readList => exact (h.listIn steps depth steps hs (List.forall_mem_nil _)).state
  | walk number => exact h.walk depth (s.walks number) hs

/-- What the readers keep is kept by a whole session. -/
theorem Keeps.run (h : Keeps config State Made Found) (depth : Nat) (ops : List Operation)
    {s : Session} (hs : State s.lexer) : State (s.run config depth ops).2.lexer := by
  induction ops generalizing s with
  | nil => exact hs
  | cons op ops ih => exact ih (h.perform depth hs op)

end

/-! ### The characters consumed -/

/-- On its way to another state, in which it looks at characters and binds symbols as well, a lexer
consumes these characters. -/
inductive Consumes (l : Lexer) : List Char → Lexer → Prop where
  | nothing : Consumes l [] l
  | look {consumed : List Char} {l' : Lexer} (h : Consumes l consumed l') :
      Consumes l consumed l'.peek.2
  | take {consumed : List Char} {l' l'' : Lexer} {c : Char} (h : Consumes l consumed l')
      (hpeek : l'.peek = (.ok (some c), l'')) : Consumes l (consumed ++ [c]) (l''.consume c)
  | bind {consumed : List Char} {l' : Lexer} (h : Consumes l consumed l') (symbol : Char)
      (body : Token) : Consumes l consumed (l'.bindMacro symbol body)

/-- All that readers do is to look at characters, to consume them, and to bind symbols. -/
theorem keeps_consumes (config : Config) (l : Lexer) :
    Keeps config (fun l' => ∃ consumed, Consumes l consumed l') (fun _ => True)
      (fun _ => True) where
  peek := fun ⟨_, h⟩ => ⟨_, h.look⟩
  consume := fun ⟨_, h⟩ hpeek => ⟨_, h.take hpeek⟩
  bindMacro := fun ⟨_, h⟩ _ symbol => ⟨_, h.bind symbol _⟩
  bound _ _ := trivial
  operator _ := trivial
  number _ := trivial
  group _ _ := trivial
  found _ _ := trivial

/-- Looking at the next character takes it from the source, but does not lose it. -/
theorem left_peek (l : Lexer) :
    l.peek.2.lookahead.toList ++ l.peek.2.source.left = l.lookahead.toList ++ l.source.left := by
  obtain ⟨source, lookahead, position, macros, log⟩ := l
  cases lookahead with
  | some c => rfl
  | none =>
    rcases hpull : source.pull with ⟨f | c, after⟩
    · simp only [peek, hpull, Option.toList_none, List.nil_append]
      exact (Source.left_of_pull_error hpull).symm
    · simp only [peek, hpull, Option.toList_none, List.nil_append]
      exact (Source.left_of_pull hpull).symm

theorem position_peek (l : Lexer) : l.peek.2.position = l.position := by
  rw [peek]
  split
  · rfl
  · split <;> rfl

/-- The character that was looked at is the one looked ahead. -/
theorem lookahead_of_peek {l l' : Lexer} {c : Char} (h : l.peek = (.ok (some c), l')) :
    l'.lookahead = some c := by
  rw [peek] at h
  split at h
  · rename_i hlook
    simp only [Prod.mk.injEq, Except.ok.injEq, Option.some.injEq] at h
    rw [← h.2, hlook, h.1]
  · split at h
    · simp only [Prod.mk.injEq, Except.ok.injEq] at h
      rw [← h.2, h.1]
    · cases h

namespace Consumes

variable {l l' : Lexer} {consumed : List Char}

/-- The characters consumed, the one looked ahead and those left are what was left before. -/
theorem left (h : Consumes l consumed l') :
    l.lookahead.toList ++ l.source.left =
      consumed ++ l'.lookahead.toList ++ l'.source.left := by
  induction h with
  | nothing => rw [List.nil_append]
  | look _ ih => rw [ih, List.append_assoc, List.append_assoc, left_peek]
  | @take consumed l' l'' c _ hpeek ih =>
    have hleft := left_peek l'
    rw [hpeek, lookahead_of_peek hpeek, Option.toList_some, List.singleton_append] at hleft
    calc
      l.lookahead.toList ++ l.source.left
          = consumed ++ (l'.lookahead.toList ++ l'.source.left) := by rw [ih, List.append_assoc]
      _ = consumed ++ c :: l''.source.left := by rw [← hleft]
      _ = consumed ++ [c] ++ (l''.consume c).lookahead.toList ++ (l''.consume c).source.left := by
        simp [consume]
  | bind _ _ _ ih => exact ih

/-- The position counts the characters consumed, and no other. -/
theorem position (h : Consumes l consumed l') :
    l'.position = l.position.advanceBy consumed := by
  induction h with
  | nothing => rfl
  | look _ ih => rw [position_peek, ih]
  | @take consumed l' l'' c _ hpeek ih =>
    have hposition := position_peek l'
    rw [hpeek] at hposition
    rw [Position.advanceBy_concat, ← ih, ← hposition, consume]
  | bind _ _ _ ih => exact ih

/-- What is consumed on the way is consumed piece by piece. -/
theorem trans {l'' : Lexer} {others : List Char} (h : Consumes l consumed l')
    (hothers : Consumes l' others l'') : Consumes l (consumed ++ others) l'' := by
  induction hothers with
  | nothing => exact (List.append_nil consumed).symm ▸ h
  | look _ ih => exact ih.look
  | take _ hpeek ih => exact (List.append_assoc consumed _ _) ▸ ih.take hpeek
  | bind _ symbol body ih => exact ih.bind symbol body

/-- The character that a lexer is asked for is the one that it consumes. -/
theorem next (l : Lexer) {character : Except Fault (Option Char)} (h : l.next = (character, l')) :
    Consumes l (character.toOption.join).toList l' := by
  rcases hpeek : l.peek with ⟨f | _ | c, l₁⟩
  all_goals
    have hlook := (nothing (l := l)).look
    rw [hpeek] at hlook
    simp only [Lexer.next, hpeek, Prod.mk.injEq] at h
    obtain ⟨rfl, rfl⟩ := h
  · exact hlook
  · exact hlook
  · exact nothing.take hpeek

end Consumes

/-- What an operation consumes, as far as its answer shows it: the character that is handed out, or
none where it is only looked at. What a reader consumes is for its tokens to say. -/
def Operation.Hands : Operation → Answer → List Char → Prop
  | .next, .character answer, consumed => consumed = answer.toOption.join.toList
  | .peek, .character _, consumed => consumed = []
  | .next, _, _ | .peek, _, _ => False
  | _, _, _ => True

theorem Session.perform_hands (config : Config) (depth : Nat) (s : Session) (op : Operation) :
    ∃ consumed, op.Hands (s.perform config depth op).1 consumed ∧
      Consumes s.lexer consumed (s.perform config depth op).2.lexer := by
  have hany : ∃ consumed, Consumes s.lexer consumed (s.perform config depth op).2.lexer :=
    (keeps_consumes config s.lexer).perform depth ⟨[], .nothing⟩ op
  obtain ⟨consumed, hconsumed⟩ := hany
  cases op with
  | peek => exact ⟨[], rfl, Consumes.nothing.look⟩
  | next => exact ⟨_, rfl, Consumes.next s.lexer rfl⟩
  | readNumber | readItem | readDefinition | readGroup | readToken | readAll | readList | walk _ =>
    exact ⟨consumed, trivial, hconsumed⟩

/-- The characters that a session consumes are those that its operations consume, one after the
other. An operation that asks for the next character answers with the one that it consumes. -/
theorem Session.run_hands (config : Config) (depth : Nat) (s : Session) (ops : List Operation) :
    ∃ pieces : List (List Char),
      List.Forall₂ (fun done piece => Operation.Hands done.1 done.2 piece)
        (ops.zip (s.run config depth ops).1) pieces ∧
      Consumes s.lexer pieces.flatten (s.run config depth ops).2.lexer := by
  induction ops generalizing s with
  | nil => exact ⟨[], .nil, .nothing⟩
  | cons op ops ih =>
    obtain ⟨piece, hpiece, hfirst⟩ := perform_hands config depth s op
    obtain ⟨pieces, hpieces, hrest⟩ := ih (s.perform config depth op).2
    exact ⟨piece :: pieces, .cons hpiece hpieces, hfirst.trans hrest⟩

/-- After any operations on a lexer, also after some that have failed, the characters consumed, the
one looked ahead if there is one, and the characters that the source has left are the input. The
position counts the lines and columns of the characters consumed. -/
theorem Session.run_consumed (config : Config) (depth : Nat) (source : Source)
    (ops : List Operation) :
    ∃ consumed, Consumes (ofSource source) consumed
        ((start source).run config depth ops).2.lexer ∧
      source.left = consumed ++ ((start source).run config depth ops).2.lexer.lookahead.toList ++
        ((start source).run config depth ops).2.lexer.source.left ∧
      ((start source).run config depth ops).2.lexer.position.line = 1 + consumed.count '\n' ∧
      ((start source).run config depth ops).2.lexer.position.column =
        (consumed.rtakeWhile (· ≠ '\n')).length := by
  obtain ⟨consumed, hconsumed⟩ :=
    (keeps_consumes config (ofSource source)).run depth ops (s := start source) ⟨[], .nothing⟩
  have hposition := hconsumed.position
  refine ⟨consumed, hconsumed, hconsumed.left, ?_, ?_⟩
  · rw [hposition]
    exact Position.line_advanceBy_start consumed
  · rw [hposition]
    exact Position.column_advanceBy_start consumed

end Lexer

end Unroll
