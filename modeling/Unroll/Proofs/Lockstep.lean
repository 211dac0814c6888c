import Unroll.Proofs.Parallel
import Unroll.Proofs.Sessions

/-!
# Sessions side by side

Where nothing is renamed, two lexers that correspond come to the very same, and not only when they
read a program to its end: whatever is asked of both of them, also after a failure, the answers are
the same, and the lexers correspond in the end.

* `Renaming.refl` — nothing is renamed;
* `Lexer.Paired.same` — what has come to the same, with nothing renamed, is the same;
* `Lexer.Session.Together` — two sessions whose lexers correspond, with the same walks under way;
* `Lexer.Parallel.perform`, `Lexer.Parallel.run` — they stay together, operation by operation.
-/

namespace Unroll

/-! ### Renaming nothing -/

namespace Renaming

/-- Every character keeps its name. -/
def refl : Renaming where
  toFun := id
  injective := Function.injective_id
  newline := rfl
  digit _ := rfl

@[simp]
theorem text_refl (s : String) : refl.text s = s := by
  have hid : (refl.toFun : Char → Char) = id := rfl
  rw [text, hid, List.map_id, String.ofList_toList]

theorem point_refl (c : CodePoint) : refl.point c = c := by
  cases c <;> rfl

theorem codeText_refl (s : CodeText) : refl.codeText s = s := by
  rw [codeText, show refl.point = id from funext point_refl, List.map_id]

mutual
@[simp]
theorem token_refl : ∀ t : Token, refl.token t = t
  | .number n => rfl
  | .operator symbol => by rw [token, text_refl]
  | .group ts => by rw [token, tokens_refl ts]
  | .foreign v => rfl
theorem tokens_refl : ∀ ts : List Token, refl.tokens ts = ts
  | [] => rfl
  | t :: ts => by rw [tokens, token_refl t, tokens_refl ts]
end

theorem map_token_refl (t : Option Token) : t.map refl.token = t := by
  rw [show refl.token = id from funext token_refl, Option.map_id, id]

@[simp]
theorem problem_refl (problem : Problem) : refl.problem problem = problem := by
  cases problem <;> simp only [Renaming.problem, codeText_refl]

@[simp]
theorem diagnostic_refl (d : Diagnostic) : refl.diagnostic d = d := by
  simp only [diagnostic, problem_refl]

theorem rejection_refl (r : Rejection) : refl.rejection r = r := by
  cases r with
  | diagnostic d => rw [rejection, diagnostic_refl]
  | report r =>
    have hid : refl.diagnostic = id := funext diagnostic_refl
    simp only [rejection, report, hid, List.map_id]

theorem refusal_refl (e : Lexer.Failure) : refl.refusal e = e := by
  cases e with
  | rejected r => rw [refusal, rejection_refl]
  | input f => rfl
  | tooDeep => rfl

theorem item_refl (item : Lexer.Item) : refl.item item = item := by
  cases item with
  | token t => rw [Renaming.item, token_refl]
  | groupEnd => rfl
  | inputEnd => rfl

theorem character_refl (c : Except Fault (Option Char)) : refl.character c = c := by
  rcases c with f | _ | c <;> rfl

theorem result_refl {α : Type} {f : α → α} (hf : ∀ a, f a = a) (r : Except Lexer.Failure α) :
    refl.result f r = r := by
  cases r with
  | ok a => rw [result, hf]
  | error e => rw [result, refusal_refl]

end Renaming

namespace Lexer

variable {config config' : Config} {Both : Lexer → Lexer → Prop} {l l' : Lexer}

/-- What has come to the same, with nothing renamed, is the same. -/
theorem Paired.same {α : Type} {f : α → α} {read read' : α × Lexer} (h : Paired f Both read read')
    (hf : ∀ a, f a = a) : Paired id Both read read' :=
  ⟨h.result.trans (hf read.1), h.lexers⟩

section

variable (h : Parallel .refl config config' Both) (hl : Both l l')

include h hl

theorem Parallel.readNumber_same :
    Paired id Both (l.readNumber config) (l'.readNumber config') := by
  rw [readNumber, readNumber, h.steps hl]
  exact (h.numberIn hl l.steps).same (Renaming.result_refl Renaming.token_refl)

theorem Parallel.readItem_same (depth : Nat) :
    Paired id Both (l.readItem config depth) (l'.readItem config' depth) := by
  rw [readItem, readItem, h.steps hl]
  exact ((h.readers l.steps).item depth hl).same (Renaming.result_refl Renaming.item_refl)

theorem Parallel.readDefinition_same (depth : Nat) :
    Paired id Both (l.readDefinition config depth) (l'.readDefinition config' depth) := by
  rw [readDefinition, readDefinition, h.steps hl]
  exact ((h.readers l.steps).definition depth hl).same (Renaming.result_refl fun _ => rfl)

theorem Parallel.readGroup_same (depth : Nat) :
    Paired id Both (l.readGroup config depth) (l'.readGroup config' depth) := by
  rw [readGroup, readGroup, h.steps hl]
  exact ((h.readers l.steps).group depth [] [] hl).same (Renaming.result_refl Renaming.token_refl)

theorem Parallel.tokenIn_same (steps depth : Nat) :
    Paired id Both (Lexer.tokenIn config steps depth l) (Lexer.tokenIn config' steps depth l') :=
  (h.tokenIn steps depth hl).same (Renaming.result_refl Renaming.map_token_refl)

theorem Parallel.readToken_same (depth : Nat) :
    Paired id Both (l.readToken config depth) (l'.readToken config' depth) := by
  rw [readToken, readToken, h.steps hl]
  exact h.tokenIn_same hl l.steps depth

theorem Parallel.readAll_same (depth : Nat) :
    Paired id Both (l.readAll config depth) (l'.readAll config' depth) :=
  (h.readAll depth hl).same (Renaming.result_refl fun ts =>
    (Renaming.refl.tokens_eq_map ts).symm.trans (Renaming.tokens_refl ts))

theorem Parallel.listIn_same (steps depth rounds : Nat) (tokens : List Token) :
    Paired id Both (listIn config steps depth rounds tokens l)
      (listIn config' steps depth rounds tokens l') := by
  induction rounds generalizing tokens l l' with
  | zero => exact ⟨rfl, hl⟩
  | succ rounds ih =>
    have htoken := h.tokenIn_same hl steps depth
    rcases hread : Lexer.tokenIn config steps depth l with ⟨e | _ | t, l₁⟩
    all_goals
      rw [hread] at htoken
      obtain ⟨l₁', hread', h₁⟩ := htoken.exists
      simp only [listIn, hread, hread', id]
    · exact ⟨rfl, h₁⟩
    · exact ⟨rfl, h₁⟩
    · exact ih h₁ (t :: tokens)

theorem Parallel.readList_same (depth : Nat) :
    Paired id Both (l.readList config depth) (l'.readList config' depth) := by
  rw [readList, readList, h.steps hl]
  exact h.listIn_same hl l.steps depth l.steps []

end

/-! ### Sessions -/

namespace Session

/-- The lexers of two sessions correspond, and the same walks are under way. -/
structure Together (Both : Lexer → Lexer → Prop) (s s' : Session) : Prop where
  lexers : Both s.lexer s'.lexer
  walks : s'.walks = s.walks

/-- The sessions have come to the same answer and are together. -/
structure Matched (Both : Lexer → Lexer → Prop) {α : Type} (done done' : α × Session) : Prop where
  answers : done'.1 = done.1
  together : Together Both done.2 done'.2

end Session

/-- An operation that is one reader at work. -/
theorem Paired.matched {α β : Type} {s s' : Session} (hs : Session.Together Both s s')
    {read read' : α × Lexer} (h : Paired id Both read read') (wrap : α → β) :
    Session.Matched Both (wrap read.1, ({ s with lexer := read.2 } : Session))
      (wrap read'.1, ({ s' with lexer := read'.2 } : Session)) :=
  ⟨congrArg wrap h.result, h.lexers, hs.walks⟩

theorem Parallel.walk (h : Parallel .refl config config' Both) (depth : Nat) {s s' : Session}
    (hs : Session.Together Both s s') (number : Nat) :
    Session.Matched Both (s.perform config depth (.walk number))
      (s'.perform config' depth (.walk number)) := by
  simp only [Session.perform, hs.walks]
  rcases s.walks number with _ | _
  · have htoken := h.readToken_same hs.lexers depth
    rcases hread : s.lexer.readToken config depth with ⟨e | _ | t, l₁⟩
    all_goals
      rw [hread] at htoken
      obtain ⟨l₁', hread', h₁⟩ := htoken.exists
      simp only [Iteration.next, hread, hread', id]
      exact ⟨rfl, h₁, rfl⟩
  · exact ⟨rfl, hs.lexers, rfl⟩

/-- Two sessions that are together come to the same answer by every operation, and stay together. -/
theorem Parallel.perform (h : Parallel .refl config config' Both) (depth : Nat) {s s' : Session}
    (hs : Session.Together Both s s') (op : Operation) :
    Session.Matched Both (s.perform config depth op) (s'.perform config' depth op) := by
  cases op with
  | peek => exact ((h.peek hs.lexers).same Renaming.character_refl).matched hs Answer.character
  | next => exact ((h.next hs.lexers).same Renaming.character_refl).matched hs Answer.character
  | readNumber => exact (h.readNumber_same hs.lexers).matched hs Answer.part
  | readItem => exact (h.readItem_same hs.lexers depth).matched hs Answer.item
  | readDefinition => exact (h.readDefinition_same hs.lexers depth).matched hs Answer.definition
  | readGroup => exact (h.readGroup_same hs.lexers depth).matched hs Answer.part
  | readToken => exact (h.readToken_same hs.lexers depth).matched hs Answer.token
  | readAll => exact (h.readAll_same hs.lexers depth).matched hs Answer.tokens
  | readList => exact (h.readList_same hs.lexers depth).matched hs Answer.tokens
  | walk number => exact h.walk depth hs number

/-- Two sessions that are together come to the same answers by any operations, and are together in
the end. -/
theorem Parallel.run (h : Parallel .refl config config' Both) (depth : Nat) (ops : List Operation)
    {s s' : Session} (hs : Session.Together Both s s') :
    Session.Matched Both (s.run config depth ops) (s'.run config' depth ops) := by
  induction ops generalizing s s' with
  | nil => exact ⟨rfl, hs⟩
  | cons op ops ih =>
    have hop := h.perform depth hs op
    have hops := ih hop.together
    exact ⟨congrArg₂ List.cons hop.answers hops.answers, hops.together⟩

end Lexer

end Unroll
