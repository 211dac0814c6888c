import Unroll.Proofs.Grammar
import Unroll.Proofs.Steps

/-!
# Walks and whole programs

A walk gives the tokens of a program one by one and is over at the first syntax error, while reading
a whole program goes on behind each error and reports all of them. Both come to the same: a walk that
fails leaves the lexer where the whole program is read on, wherever the error was found, so that a
new walk begun there finds the rest.

* `Lexer.Walks` — one walk, to its end or its failure;
* `Lexer.Recovers` — one walk after the other, until one ends;
* `Lexer.Walks.readList`, `Lexer.Walks.collect` — a walk is the first part of what is read at once;
* `Lexer.Recovers.collect`, `Lexer.exists_recovers` — all walks together are the whole;
* `Lexer.walks_agree` — walks and whole programs agree.
-/

namespace Unroll

namespace Lexer

/-- A walk that is begun at one lexer gives these tokens, then it ends or fails, and leaves another
lexer. -/
inductive Walks (config : Config) (depth : Nat) :
    Lexer → List Token → Except Failure Unit → Lexer → Prop where
  | token {l l₁ l' t ts result}
      (h : Iteration.running.next config depth l = (.ok (some t), .running, l₁))
      (next : Walks config depth l₁ ts result l') : Walks config depth l (t :: ts) result l'
  | ended {l l'} (h : Iteration.running.next config depth l = (.ok none, .over, l')) :
      Walks config depth l [] (.ok ()) l'
  | failed {l l' e} (h : Iteration.running.next config depth l = (.error e, .over, l')) :
      Walks config depth l [] (.error e) l'

/-- Walks are begun one after the other as long as they are rejected, until one ends. -/
inductive Recovers (config : Config) (depth : Nat) : Lexer → List Rejection → Lexer → Prop where
  | ended {l ts l'} (h : Walks config depth l ts (.ok ()) l') : Recovers config depth l [] l'
  | again {l ts r l₁ rs l'} (h : Walks config depth l ts (.error (.rejected r)) l₁)
      (next : Recovers config depth l₁ rs l') : Recovers config depth l (r :: rs) l'

variable {config : Config} {depth : Nat} {l l' l₁ : Lexer} {t : Token} {ts : List Token}
  {e : Failure} {r : Rejection} {rs : List Rejection} {result : Except Failure Unit}

/-! ### One token -/

theorem next_eq_token : Iteration.running.next config depth l = (.ok (some t), .running, l₁) ↔
    l.readToken config depth = (.ok (some t), l₁) := by
  rcases hread : l.readToken config depth with ⟨e | _ | t, l₂⟩ <;> simp [Iteration.next, hread]

theorem next_eq_end : Iteration.running.next config depth l = (.ok none, .over, l') ↔
    l.readToken config depth = (.ok none, l') := by
  rcases hread : l.readToken config depth with ⟨e | _ | t, l₂⟩ <;> simp [Iteration.next, hread]

theorem next_eq_error : Iteration.running.next config depth l = (.error e, .over, l') ↔
    l.readToken config depth = (.error e, l') := by
  rcases hread : l.readToken config depth with ⟨e | _ | t, l₂⟩ <;> simp [Iteration.next, hread]

theorem readList_of_token (h : l.readToken config depth = (.ok (some t), l₁)) :
    l.readList config depth =
      ((l₁.readList config depth).1.map (t :: ·), (l₁.readList config depth).2) := by
  have hless := remaining_of_token h
  have hle := steps_le (Nat.le_of_lt hless)
  obtain ⟨k, hk, hwhole⟩ := exists_rounds_readList config depth l
  rw [hwhole, listIn, tokenIn_eq config depth (Nat.le_refl _), h]
  exact listIn_eq depth [t] hle (by omega)

theorem collect_of_token (h : l.readToken config depth = (.ok (some t), l₁)) :
    l.collect config depth =
      ((l₁.collect config depth).1.map (Scope.append ⟨[t], []⟩), (l₁.collect config depth).2) := by
  have hless := remaining_of_token h
  have hle := steps_le (Nat.le_of_lt hless)
  obtain ⟨k, hk, hwhole⟩ := exists_rounds_collect config depth l
  rw [hwhole, collectIn, tokenIn_eq config depth (Nat.le_refl _), h]
  exact collectIn_eq depth [t] [] hle (by omega)

theorem collect_of_rejected (h : l.readToken config depth = (.error (.rejected r), l₁)) :
    l.collect config depth =
      ((l₁.collect config depth).1.map (Scope.append ⟨[], r.diagnostics⟩),
        (l₁.collect config depth).2) := by
  have hless := remaining_of_rejected h
  have hle := steps_le (Nat.le_of_lt hless)
  obtain ⟨k, hk, hwhole⟩ := exists_rounds_collect config depth l
  rw [hwhole, collectIn, tokenIn_eq config depth (Nat.le_refl _), h]
  have hrounds : l₁.remaining < k := by omega
  simp only [List.append_nil]
  rw [collectIn_eq depth [] r.diagnostics.reverse hle hrounds, List.reverse_nil,
    List.reverse_reverse]

theorem collect_of_end (h : l.readToken config depth = (.ok none, l')) :
    l.collect config depth = (.ok .empty, l') := by
  obtain ⟨k, -, hwhole⟩ := exists_rounds_collect config depth l
  rw [hwhole, collectIn, tokenIn_eq config depth (Nat.le_refl _), h]
  rfl

theorem readList_of_end (h : l.readToken config depth = (.ok none, l')) :
    l.readList config depth = (.ok [], l') := by
  obtain ⟨k, -, hwhole⟩ := exists_rounds_readList config depth l
  rw [hwhole, listIn, tokenIn_eq config depth (Nat.le_refl _), h]
  rfl

theorem readList_of_error (h : l.readToken config depth = (.error e, l')) :
    l.readList config depth = (.error e, l') := by
  obtain ⟨k, -, hwhole⟩ := exists_rounds_readList config depth l
  rw [hwhole, listIn, tokenIn_eq config depth (Nat.le_refl _), h]

/-- What is no syntax error ends the reading of the whole program as well. -/
theorem collect_of_error (h : l.readToken config depth = (.error e, l'))
    (he : ∀ r, e ≠ .rejected r) : l.collect config depth = (.error e, l') := by
  obtain ⟨k, -, hwhole⟩ := exists_rounds_collect config depth l
  rw [hwhole, collectIn, tokenIn_eq config depth (Nat.le_refl _), h]
  cases e with
  | rejected r => exact absurd rfl (he r)
  | input f => rfl
  | tooDeep => rfl

/-! ### One walk -/

/-- Every walk comes to an end or to a failure. -/
theorem exists_walks (config : Config) (depth : Nat) (l : Lexer) :
    ∃ ts result l', Walks config depth l ts result l' := by
  induction hn : l.remaining using Nat.strongRecOn generalizing l with
  | ind n ih =>
    rcases hread : l.readToken config depth with ⟨e | _ | t, l₁⟩
    · exact ⟨[], .error e, l₁, .failed (next_eq_error.2 hread)⟩
    · exact ⟨[], .ok (), l₁, .ended (next_eq_end.2 hread)⟩
    · obtain ⟨ts, result, l', hwalk⟩ := ih _ (hn ▸ remaining_of_token hread) l₁ rfl
      exact ⟨t :: ts, result, l', .token (next_eq_token.2 hread) hwalk⟩

namespace Walks

/-- A walk gives what a new one gives that is listed. -/
theorem readList (h : Walks config depth l ts result l') :
    l.readList config depth = (result.map fun _ => ts, l') := by
  induction h with
  | @token l l₁ l' t ts result h _ ih =>
    rw [readList_of_token (next_eq_token.1 h), ih]
    cases result <;> rfl
  | ended h => exact readList_of_end (next_eq_end.1 h)
  | failed h => exact readList_of_error (next_eq_error.1 h)

/-- A walk never takes back what it has read. -/
theorem remaining_lt (h : Walks config depth l ts (.error (.rejected r)) l') :
    l'.remaining < l.remaining := by
  generalize hresult : Except.error (Failure.rejected r) = result at h
  induction h with
  | token h _ ih => exact Nat.lt_trans (ih hresult) (remaining_of_token (next_eq_token.1 h))
  | ended _ => cases hresult
  | failed h =>
    obtain rfl := Except.error.inj hresult
    exact remaining_of_rejected (next_eq_error.1 h)

/-- A walk that ends has read the whole program. -/
theorem collect (h : Walks config depth l ts (.ok ()) l') :
    l.collect config depth = (.ok ⟨ts, []⟩, l') := by
  generalize hresult : Except.ok () = result at h
  induction h with
  | token h _ ih =>
    rw [collect_of_token (next_eq_token.1 h), ih hresult]
    rfl
  | ended h => exact collect_of_end (next_eq_end.1 h)
  | failed _ => cases hresult

/-- A walk that is rejected leaves the lexer where the whole program is read on. -/
theorem collect_of_rejected (h : Walks config depth l ts (.error (.rejected r)) l') :
    l.collect config depth =
      ((l'.collect config depth).1.map (Scope.append ⟨ts, r.diagnostics⟩),
        (l'.collect config depth).2) := by
  generalize hresult : Except.error (Failure.rejected r) = result at h
  induction h with
  | @token l l₁ l' t ts result h _ ih =>
    rw [collect_of_token (next_eq_token.1 h), ih hresult]
    cases (l'.collect config depth).1 <;> rfl
  | ended _ => cases hresult
  | failed h =>
    obtain rfl := Except.error.inj hresult
    exact Lexer.collect_of_rejected (next_eq_error.1 h)

/-- A walk that fails otherwise fails as reading the whole program does. -/
theorem collect_of_error (h : Walks config depth l ts (.error e) l') (he : ∀ r, e ≠ .rejected r) :
    l.collect config depth = (.error e, l') := by
  generalize hresult : Except.error e = result at h
  induction h with
  | token h _ ih =>
    rw [collect_of_token (next_eq_token.1 h), ih hresult]
    rfl
  | ended _ => cases hresult
  | failed h =>
    obtain rfl := Except.error.inj hresult
    exact Lexer.collect_of_error (next_eq_error.1 h) he

end Walks

/-! ### One walk after the other -/

/-- The walks that are rejected find the syntax errors of the whole program, and the one that ends
leaves the lexer where reading the whole program does. -/
theorem Recovers.collect (h : Recovers config depth l rs l') :
    ∃ ts, l.collect config depth = (.ok ⟨ts, rs.flatMap Rejection.diagnostics⟩, l') := by
  induction h with
  | ended h => exact ⟨_, h.collect⟩
  | again h _ ih =>
    obtain ⟨ts, hcollect⟩ := ih
    rw [h.collect_of_rejected, hcollect]
    exact ⟨_, rfl⟩

/-- Where the whole program is read to its end, so it is by one walk after the other. -/
theorem exists_recovers {scope : Scope} (h : l.collect config depth = (.ok scope, l')) :
    ∃ rs, Recovers config depth l rs l' ∧ rs.flatMap Rejection.diagnostics = scope.found := by
  induction hn : l.remaining using Nat.strongRecOn generalizing l scope with
  | ind n ih =>
    obtain ⟨ts, result, l₁, hwalk⟩ := exists_walks config depth l
    rcases result with (r | f | _) | _
    · rw [hwalk.collect_of_rejected] at h
      rcases hrest : l₁.collect config depth with ⟨e | scope₁, l₂⟩
      · simp [hrest, Except.map] at h
      · simp only [hrest, Except.map, Prod.mk.injEq, Except.ok.injEq] at h
        obtain ⟨rfl, rfl⟩ := h
        obtain ⟨rs, hrecovers, hfound⟩ := ih _ (hn ▸ hwalk.remaining_lt) hrest rfl
        exact ⟨r :: rs, .again hwalk hrecovers, by simp [hfound, Scope.append]⟩
    · simp [hwalk.collect_of_error] at h
    · simp [hwalk.collect_of_error] at h
    · rw [hwalk.collect] at h
      cases h
      exact ⟨[], .ended hwalk, rfl⟩

/-! ### Walks that are over -/

namespace Session

variable {s : Session} {number : Nat}

/-- A walk that is over gives nothing and leaves everything as it is. -/
theorem perform_walk_over (h : s.walks number = .over) (config : Config) (depth : Nat) :
    s.perform config depth (.walk number) = (.token (.ok none), s) := by
  obtain ⟨lexer, walks⟩ := s
  have hover : walks number = .over := h
  have hwalks : (fun i => if i = number then Iteration.over else walks i) = walks := by
    funext i
    split
    · rename_i hi
      rw [hi, hover]
    · rfl
  simp only [perform, hover, Iteration.next, hwalks]

/-- A walk that has given no token is over. -/
theorem over_of_perform {answer : Except Failure (Option Token)} {s' : Session}
    (h : s.perform config depth (.walk number) = (.token answer, s'))
    (hanswer : ∀ t, answer ≠ .ok (some t)) : s'.walks number = .over := by
  simp only [perform, Prod.mk.injEq, Answer.token.injEq] at h
  obtain ⟨rfl, rfl⟩ := h
  rcases hwalk : s.walks number with _ | _
  · rcases hread : s.lexer.readToken config depth with ⟨e | _ | t, l₁⟩
    · simp [Iteration.next, hread]
    · simp [Iteration.next, hread]
    · have hnext : ((s.walks number).next config depth s.lexer).1 = .ok (some t) := by
        rw [hwalk, Iteration.next, hread]
      exact absurd hnext (hanswer t)
  · simp [Iteration.next]

/-- A walk that is over stays so. -/
theorem over_perform (h : s.walks number = .over) (op : Operation) :
    (s.perform config depth op).2.walks number = .over := by
  cases op with
  | walk other =>
    by_cases hother : number = other
    · rw [← hother, perform_walk_over h, h]
    · simp only [perform, if_neg hother, h]
  | _ => exact h

theorem over_run (h : s.walks number = .over) (ops : List Operation) :
    (s.run config depth ops).2.walks number = .over := by
  induction ops generalizing s with
  | nil => exact h
  | cons op ops ih => exact ih (over_perform h op)

end Session

/-! ### Walks and whole programs -/

/-- Syntax errors do not end the collecting. -/
theorem collectIn_ne_rejected (config : Config) (steps depth rounds : Nat) (ts : List Token)
    (ds : List Diagnostic) (l : Lexer) (r : Rejection) :
    (collectIn config steps depth rounds ts ds l).1 ≠ .error (.rejected r) := by
  induction rounds generalizing ts ds l with
  | zero => simp [collectIn]
  | succ rounds ih =>
    rcases hread : tokenIn config steps depth l with ⟨(r | f | _) | (_ | t), l₁⟩
    · simpa only [collectIn, hread] using ih _ _ _
    · simp [collectIn, hread]
    · simp [collectIn, hread]
    · simp [collectIn, hread]
    · simpa only [collectIn, hread] using ih _ _ _

/-- Nothing was found in a program that is read. -/
theorem collect_of_readAll (h : (l.readAll config depth).1 = .ok ts) :
    l.collect config depth = (.ok ⟨ts, []⟩, (l.readAll config depth).2) := by
  rw [readAll_eq_collect] at h ⊢
  rcases hcollect : l.collect config depth with ⟨e | ⟨tokens, _ | ⟨d, ds⟩⟩, l'⟩
  · simp [hcollect, Except.bind] at h
  · simp only [hcollect, Except.bind, Scope.program, Report.ofList?, Except.ok.injEq] at h
    rw [h]
  · simp [hcollect, Except.bind, Scope.program, Report.ofList?] at h

/-- What a program is rejected with was found in it. -/
theorem collect_of_readAll_rejected (h : (l.readAll config depth).1 = .error (.rejected r)) :
    ∃ tokens, l.collect config depth =
      (.ok ⟨tokens, r.diagnostics⟩, (l.readAll config depth).2) := by
  have hne := collectIn_ne_rejected config l.steps depth l.steps [] [] l r
  rw [← collect] at hne
  rw [readAll_eq_collect] at h ⊢
  rcases hcollect : l.collect config depth with ⟨e | scope, l'⟩
  · rw [hcollect] at h hne
    exact absurd (congrArg Except.error (Except.error.inj h)) hne
  · rw [hcollect] at h
    obtain ⟨report, rfl, hfound⟩ := Scope.program_eq_rejected h
    exact ⟨scope.tokens, by rw [Rejection.diagnostics, hfound]⟩

/-- What there is to say of a lexer about walks through its tokens. -/
structure WalksAgree (config : Config) (depth : Nat) (l : Lexer) : Prop where
  /-- there is a first walk, and only one -/
  first : ∃ ts result l', Walks config depth l ts result l'
  /-- a list of all tokens is made by it -/
  listed {ts : List Token} {result : Except Failure Unit} {l' : Lexer}
    (h : Walks config depth l ts result l') :
    l.readList config depth = (result.map fun _ => ts, l')
  /-- a program without syntax errors is read by it -/
  ok {ts : List Token} (h : (l.readAll config depth).1 = .ok ts) :
    Walks config depth l ts (.ok ()) (l.readAll config depth).2 ∧
      l.readList config depth = (.ok ts, (l.readAll config depth).2)
  /-- in one with syntax errors it finds the first of them -/
  rejected {r : Rejection} (h : (l.readAll config depth).1 = .error (.rejected r)) :
    ∃ ts first l', Walks config depth l ts (.error (.rejected first)) l' ∧
      l.readList config depth = (.error (.rejected first), l') ∧ first.diagnostics ≠ [] ∧
      first.diagnostics <+: r.diagnostics
  /-- one walk after the other finds all of them, and leaves the same lexer -/
  recovered {r : Rejection} (h : (l.readAll config depth).1 = .error (.rejected r)) :
    ∃ rs, Recovers config depth l rs (l.readAll config depth).2 ∧
      rs.flatMap Rejection.diagnostics = r.diagnostics
  recovers {rs : List Rejection} {l' : Lexer} (h : Recovers config depth l rs l') :
    l' = (l.readAll config depth).2 ∧
      ((rs = [] ∧ ∃ ts, (l.readAll config depth).1 = .ok ts) ∨
        ∃ r, (l.readAll config depth).1 = .error (.rejected r) ∧
          rs.flatMap Rejection.diagnostics = r.diagnostics)
  /-- a walk that has failed or ended is over, whatever is read in the meantime -/
  finished {walks : Nat → Iteration} {number : Nat} {answer : Except Failure (Option Token)}
    {s : Session}
    (h : Session.perform config depth ⟨l, walks⟩ (.walk number) = (.token answer, s))
    (hanswer : ∀ t, answer ≠ .ok (some t)) (ops : List Operation) :
    (s.run config depth ops).2.perform config depth (.walk number) =
      (.token (.ok none), (s.run config depth ops).2)

/-- Walking through the tokens of a program and reading all of it agree, in every state of a lexer:
a walk gives the tokens of the whole program, or the first part of its syntax errors. Walks that are
begun one after the other find each syntax error once, in order, and leave the lexer as reading the
whole program does. A walk that is over reads nothing more. -/
theorem walks_agree (config : Config) (depth : Nat) (l : Lexer) : WalksAgree config depth l where
  first := exists_walks config depth l
  listed h := h.readList
  ok {ts} h := by
    obtain ⟨rs, hrecovers, hfound⟩ := exists_recovers (collect_of_readAll h)
    cases hrecovers with
    | @ended _ tokens _ hwalk =>
      have hcollect := hwalk.collect.symm.trans (collect_of_readAll h)
      simp only [Prod.mk.injEq, Except.ok.injEq, Scope.mk.injEq, and_true] at hcollect
      obtain rfl : tokens = ts := hcollect
      exact ⟨hwalk, hwalk.readList⟩
    | @again _ _ r _ _ _ hwalk hnext =>
      rw [List.flatMap_cons, List.append_eq_nil_iff] at hfound
      exact absurd hfound.1 r.diagnostics_ne_nil
  rejected {r} h := by
    obtain ⟨tokens, hcollect⟩ := collect_of_readAll_rejected h
    obtain ⟨rs, hrecovers, hfound⟩ := exists_recovers hcollect
    cases hrecovers with
    | ended _ => exact absurd hfound.symm r.diagnostics_ne_nil
    | @again _ ts first l₁ rs _ hwalk hnext =>
      refine ⟨ts, first, l₁, hwalk, hwalk.readList, first.diagnostics_ne_nil, ?_⟩
      have hfound : (first :: rs).flatMap Rejection.diagnostics = r.diagnostics := hfound
      rw [← hfound, List.flatMap_cons]
      exact List.prefix_append _ _
  recovered h := by
    obtain ⟨tokens, hcollect⟩ := collect_of_readAll_rejected h
    exact exists_recovers hcollect
  recovers {rs l'} h := by
    obtain ⟨ts, hcollect⟩ := h.collect
    rw [readAll_eq_collect, hcollect]
    refine ⟨rfl, ?_⟩
    rcases hfound : rs.flatMap Rejection.diagnostics with _ | ⟨d, ds⟩
    · refine .inl ⟨?_, ts, rfl⟩
      cases rs with
      | nil => rfl
      | cons r rs =>
        rw [List.flatMap_cons, List.append_eq_nil_iff] at hfound
        exact absurd hfound.1 r.diagnostics_ne_nil
    · exact .inr ⟨_, rfl, rfl⟩
  finished h hanswer ops :=
    Session.perform_walk_over (Session.over_run (Session.over_of_perform h hanswer) ops) config depth

/-- The first walk fails at the end of the group, with what is wrong inside of it. The second one
fails behind its only token, with the rest. -/
example :
    let l := ofText ['(', '#', ')', '+', ')']
    let missing : Diagnostic := ⟨⟨1, 2⟩, numberMissing .standard⟩
    let closing : Diagnostic := ⟨⟨1, 5⟩, unopened .standard⟩
    (l.readAll .standard nestingLimit).1 =
      .error (.rejected (.report ⟨[missing, closing], by simp⟩)) ∧
    (l.readList .standard nestingLimit).1 = .error (.rejected (.report ⟨[missing], by simp⟩)) ∧
    ((l.readList .standard nestingLimit).2.readList .standard nestingLimit).1 =
      .error (.rejected (.diagnostic closing)) :=
  ⟨rfl, rfl, rfl⟩

end Lexer

end Unroll
