import Unroll.Proofs.Composition
import Unroll.Proofs.Sessions

/-!
# Steps that are enough

The readers are given a number of steps, which only bounds their recursion. The measure that keeps
them from using all of them is the number of characters that may be left: it never grows, and of two
readers called one inside of the other at least one makes it smaller.

* `Lexer.remaining_of_next`, `Lexer.keeps_remaining` — what is left, before and after;
* `Lexer.itemIn_again_or` — what a reader of items does behind its first character;
* `Lexer.remaining_of_itemIn` — an item, or its rejection, is paid for with a character;
* `Lexer.itemIn_eq`, `Lexer.groupIn_eq` and so on — any number of steps that is large enough comes
  to the same, so that none of the readers ever runs out of steps.
-/

namespace Unroll

/-! ### What is left of a source -/

/-- What a stream gives is taken from what is left. -/
theorem Stream.length_of_read {stream after : Stream} {size : Int}
    {result : Except Fault (List Char)} (h : stream.read size = (result, after)) :
    stream.chars.length = (result.toOption.getD []).length + after.chars.length := by
  obtain ⟨chars, ending⟩ := stream
  rw [read] at h
  split at h
  · cases h
    simp [Except.toOption]
  · split at h
    · cases h
      simp [Except.toOption]
    · cases h
      simp [Except.toOption]
    · split at h
      · cases h
        simp [Except.toOption]
      · cases h
        simp [Except.toOption]
        omega

namespace Source

variable {source after : Source}

theorem size_of_pull {result : Except Fault (Option Char)} (h : source.pull = (result, after)) :
    source.size = (result.toOption.join).toList.length + after.size := by
  obtain ⟨buffer, stream, chunk, reads, finished⟩ := source
  rcases buffer with _ | ⟨d, buffer⟩
  · simp only [pull] at h
    split at h
    · cases h
      simp [Except.toOption]
    · split at h
      all_goals
        rename_i hread
        have hlength := Stream.length_of_read hread
        cases h
        simp [Except.toOption, size] at hlength ⊢
        omega
  · cases h
    simp [Except.toOption, size]
    omega

end Source

namespace Lexer

variable {config : Config} {steps depth : Nat} {l l' l₁ : Lexer} {c : Char}

/-! ### What is left of an input -/

/-- Looking at the next character takes it from the source, but does not lose it. -/
theorem remaining_peek (l : Lexer) : l.peek.2.remaining = l.remaining := by
  obtain ⟨source, lookahead, position, macros, log⟩ := l
  cases lookahead with
  | some c => rfl
  | none =>
    rcases hpull : source.pull with ⟨f | c, after⟩
    all_goals
      have hsize := Source.size_of_pull hpull
      simp only [peek, hpull, remaining, hsize]
      simp [Except.toOption]

theorem remaining_of_peek {result : Except Fault (Option Char)} (h : l.peek = (result, l')) :
    l'.remaining = l.remaining := by
  rw [← remaining_peek l, h]

/-- The character that was looked at is one of those that are left. -/
theorem remaining_consume (h : l.peek = (.ok (some c), l')) :
    (l'.consume c).remaining + 1 = l.remaining := by
  have hlook := lookahead_of_peek h
  rw [← remaining_of_peek h, remaining, remaining, hlook]
  simp only [consume, Option.toList_none, List.length_nil, Option.toList_some,
    List.length_singleton]
  omega

theorem remaining_of_next (h : l.next = (.ok (some c), l')) : l'.remaining + 1 = l.remaining := by
  rcases hpeek : l.peek with ⟨f | _ | d, l₁⟩
  · simp [next, hpeek] at h
  · simp [next, hpeek] at h
  · simp only [next, hpeek, Prod.mk.injEq, Except.ok.injEq, Option.some.injEq] at h
    obtain ⟨rfl, rfl⟩ := h
    exact remaining_consume hpeek

/-- What is left never becomes more. -/
theorem keeps_remaining (config : Config) (n : Nat) :
    Keeps config (fun l => l.remaining ≤ n) (fun _ => True) (fun _ => True) where
  peek {l} h := by rwa [remaining_peek]
  consume h hpeek := by
    have hless := remaining_consume hpeek
    omega
  bindMacro h _ _ := h
  bound _ _ := trivial
  operator _ := trivial
  number _ := trivial
  group _ _ := trivial
  found _ _ := trivial

/-! ### Items are paid for -/

/-- Behind its first character a reader of items starts over, or it comes to something that is not
the end of the input. -/
theorem itemIn_again_or (config : Config) (steps depth : Nat)
    (hnext : l.next = (.ok (some c), l₁)) :
    (∃ l₂, l₂.remaining ≤ l₁.remaining ∧
      itemIn config (steps + 1) (depth + 1) l = itemIn config steps (depth + 1) l₂) ∨
    (itemIn config (steps + 1) (depth + 1) l).1 ≠ .ok .inputEnd ∧
      (itemIn config (steps + 1) (depth + 1) l).2.remaining ≤ l₁.remaining := by
  have hkeeps := keeps_remaining config l₁.remaining
  have h₁ : l₁.remaining ≤ l₁.remaining := Nat.le_refl _
  rcases hbound : l₁.macros.lookup c with _ | t
  · rcases hrole : config.roleOf c with _ | role
    · exact .inl ⟨l₁, h₁, by simp only [itemIn, hnext, hbound, hrole]⟩
    cases role with
    | operator => exact .inr (by simp [itemIn, hnext, hbound, hrole])
    | groupEnd => exact .inr (by simp [itemIn, hnext, hbound, hrole])
    | escapePrefix =>
      rcases hskip : l₁.next with ⟨f | _, l₂⟩
      · have h₂ := hkeeps.of_next h₁ hskip
        exact .inr (by simp [itemIn, hnext, hbound, hrole, hskip, h₂])
      · exact .inl ⟨l₂, hkeeps.of_next h₁ hskip, by simp only [itemIn, hnext, hbound, hrole, hskip]⟩
    | numberPrefix =>
      have h₂ := (hkeeps.numberIn steps h₁).state
      rcases hread : numberIn config steps l₁ with ⟨e | t, l₂⟩
      all_goals
        rw [hread] at h₂
        exact .inr (by simp [itemIn, hnext, hbound, hrole, hread, h₂])
    | macroPrefix =>
      have h₂ := ((hkeeps.readers steps).definition depth h₁).state
      rcases hread : definitionIn config steps depth l₁ with ⟨e | _ | _, l₂⟩
      · rw [hread] at h₂
        exact .inr (by simp [itemIn, hnext, hbound, hrole, hread, h₂])
      · rw [hread] at h₂
        exact .inl ⟨l₂, h₂, by simp only [itemIn, hnext, hbound, hrole, hread]⟩
      · rw [hread] at h₂
        exact .inr (by simp [itemIn, hnext, hbound, hrole, hread, h₂])
    | groupStart =>
      have h₂ := ((hkeeps.readers steps).group depth h₁ (List.forall_mem_nil _)
        (List.forall_mem_nil _)).state
      rcases hread : groupIn config steps depth [] [] l₁ with ⟨e | t, l₂⟩
      all_goals
        rw [hread] at h₂
        exact .inr (by simp [itemIn, hnext, hbound, hrole, hread, h₂])
  · exact .inr (by simp [itemIn, hnext, hbound])

/-- What a reader of items comes to that is no end of the input, nothing read too deeply, and no
fault of the source. -/
inductive Paid : Except Failure Item → Prop where
  | token (t : Token) : Paid (.ok (.token t))
  | groupEnd : Paid (.ok .groupEnd)
  | rejected (r : Rejection) : Paid (.error (.rejected r))

/-- An item is paid for with a character, and so is a rejection. -/
theorem remaining_of_itemIn {result : Except Failure Item}
    (h : itemIn config steps depth l = (result, l')) (hpaid : Paid result) :
    l'.remaining < l.remaining := by
  rcases steps with _ | steps
  · rw [itemIn, Prod.mk.injEq] at h
    exact absurd (h.1 ▸ hpaid) (by rintro ⟨⟩)
  rcases depth with _ | depth
  · simp only [itemIn, Prod.mk.injEq] at h
    exact absurd (h.1 ▸ hpaid) (by rintro ⟨⟩)
  rcases hnext : l.next with ⟨f | _ | c, l₁⟩
  · simp only [itemIn, hnext, Prod.mk.injEq] at h
    exact absurd (h.1 ▸ hpaid) (by rintro ⟨⟩)
  · simp only [itemIn, hnext, Prod.mk.injEq] at h
    exact absurd (h.1 ▸ hpaid) (by rintro ⟨⟩)
  · have hless := remaining_of_next hnext
    rcases itemIn_again_or config steps depth hnext with ⟨l₂, h₂, hagain⟩ | ⟨-, hle⟩
    · have hle := (((keeps_remaining config _).readers steps).item (depth + 1) h₂).state
      rw [← hagain, h] at hle
      exact Nat.lt_of_le_of_lt hle (by omega)
    · rw [h] at hle
      exact Nat.lt_of_le_of_lt hle (by omega)

/-! ### More steps than enough -/

/-- With more steps than there are characters left, a run of digits comes to its end. -/
theorem takeDigits_succ (done : List Char) (h : l.remaining < steps) :
    takeDigits (steps + 1) done l = takeDigits steps done l := by
  induction steps generalizing l done with
  | zero => omega
  | succ steps ih =>
    rcases hpeek : l.peek with ⟨f | _ | c, l₁⟩
    · simp only [takeDigits, hpeek]
    · simp only [takeDigits, hpeek]
    · have hless := remaining_consume hpeek
      rw [takeDigits, takeDigits, hpeek]
      by_cases hc : isDigit c = true
      · simp only [if_pos hc]
        exact ih (c :: done) (by omega)
      · simp only [if_neg hc]

theorem numberIn_succ (config : Config) (h : l.remaining < steps) :
    numberIn config (steps + 1) l = numberIn config steps l := by
  rw [numberIn, numberIn, takeDigits_succ [] h]

/-- With so many steps, the readers do the same as with one step more, if the steps are enough for
the characters that are left. -/
structure ReadersSettle (config : Config) (steps : Nat) : Prop where
  item (depth : Nat) {l : Lexer} (h : 2 * l.remaining + 1 ≤ steps) :
    itemIn config (steps + 1) depth l = itemIn config steps depth l
  definition (depth : Nat) {l : Lexer} (h : 2 * l.remaining + 1 ≤ steps) :
    definitionIn config (steps + 1) depth l = definitionIn config steps depth l
  group (depth : Nat) (tokens : List Token) (found : List Diagnostic) {l : Lexer}
    (h : 2 * l.remaining + 2 ≤ steps) :
    groupIn config (steps + 1) depth tokens found l = groupIn config steps depth tokens found l

theorem ReadersSettle.item_succ (ih : ReadersSettle config steps) (depth : Nat)
    (h : 2 * l.remaining + 1 ≤ steps + 1) :
    itemIn config (steps + 2) depth l = itemIn config (steps + 1) depth l := by
  cases depth with
  | zero => simp only [itemIn]
  | succ depth =>
    rcases hnext : l.next with ⟨f | _ | c, l₁⟩
    · simp only [itemIn, hnext]
    · simp only [itemIn, hnext]
    have hless := remaining_of_next hnext
    have hkeeps := keeps_remaining config l₁.remaining
    have h₁ : l₁.remaining ≤ l₁.remaining := Nat.le_refl _
    rw [itemIn, itemIn, hnext]
    simp only
    rcases hbound : l₁.macros.lookup c with _ | t
    · rcases hrole : config.roleOf c with _ | role
      · exact ih.item (depth + 1) (by omega)
      cases role with
      | operator => rfl
      | groupEnd => rfl
      | escapePrefix =>
        rcases hskip : l₁.next with ⟨f | _, l₂⟩
        · rfl
        · have h₂ := hkeeps.of_next h₁ hskip
          exact ih.item (depth + 1) (by omega)
      | numberPrefix => simp only [numberIn_succ config (by omega : l₁.remaining < steps)]
      | macroPrefix =>
        have h₂ := ((hkeeps.readers steps).definition depth h₁).state
        simp only [ih.definition depth (by omega : 2 * l₁.remaining + 1 ≤ steps)]
        rcases hread : definitionIn config steps depth l₁ with ⟨e | _ | _, l₂⟩
        · rfl
        · rw [hread] at h₂
          exact ih.item (depth + 1) (by simp only at h₂; omega)
        · rfl
      | groupStart => simp only [ih.group depth [] [] (by omega : 2 * l₁.remaining + 2 ≤ steps)]
    · rfl

theorem ReadersSettle.definition_succ (ih : ReadersSettle config steps) (depth : Nat)
    (h : 2 * l.remaining + 1 ≤ steps + 1) :
    definitionIn config (steps + 2) depth l = definitionIn config (steps + 1) depth l := by
  cases depth with
  | zero => simp only [definitionIn]
  | succ depth =>
    rcases hnext : l.next with ⟨f | _ | symbol, l₁⟩
    · simp only [definitionIn, hnext]
    · simp only [definitionIn, hnext]
    · have hless := remaining_of_next hnext
      rw [definitionIn, definitionIn, hnext]
      simp only [ih.item depth (by omega : 2 * l₁.remaining + 1 ≤ steps)]

theorem ReadersSettle.group_succ (ih : ReadersSettle config steps) (depth : Nat)
    (tokens : List Token) (found : List Diagnostic) (h : 2 * l.remaining + 2 ≤ steps + 1) :
    groupIn config (steps + 2) depth tokens found l =
      groupIn config (steps + 1) depth tokens found l := by
  cases depth with
  | zero => simp only [groupIn]
  | succ depth =>
    rw [groupIn, groupIn, ih.item depth (by omega)]
    rcases hread : itemIn config steps depth l with ⟨(r | f | _) | (t | _ | _), l₁⟩
    · have hless := remaining_of_itemIn hread (.rejected r)
      exact ih.group (depth + 1) _ _ (by omega)
    · rfl
    · rfl
    · have hless := remaining_of_itemIn hread (.token t)
      exact ih.group (depth + 1) _ _ (by omega)
    · rfl
    · rfl

theorem readersSettle (config : Config) (steps : Nat) : ReadersSettle config steps := by
  induction steps with
  | zero => exact ⟨fun _ _ h => by omega, fun _ _ h => by omega, fun _ _ _ _ h => by omega⟩
  | succ steps ih =>
    exact ⟨fun depth _ h => ih.item_succ depth h, fun depth _ h => ih.definition_succ depth h,
      fun depth ts ds _ h => ih.group_succ depth ts ds h⟩

/-! ### Readers do not run out of steps -/

/-- What is left and the steps that are enough for it grow together. -/
theorem steps_le (h : l'.remaining ≤ l.remaining) : l'.steps ≤ l.steps := by
  rw [Lexer.steps, Lexer.steps]
  omega

/-- What one step more does not change, no number of further steps changes. -/
theorem settled {α : Type} {enough : Nat} (read : (steps : Nat) → α)
    (hsucc : ∀ n, enough ≤ n → read (n + 1) = read n) (h : enough ≤ steps) :
    read steps = read enough := by
  induction steps, h using Nat.le_induction with
  | base => rfl
  | succ n hle ih => rw [hsucc n hle, ih]

theorem enough_of_steps_le {n : Nat} (h : l.steps ≤ n) : 2 * l.remaining + 2 ≤ n := by
  rw [Lexer.steps] at h
  omega

theorem itemIn_eq (config : Config) (depth : Nat) (h : l.steps ≤ steps) :
    itemIn config steps depth l = l.readItem config depth := by
  refine settled (itemIn config · depth l) (fun n hn => ?_) h
  have hn := enough_of_steps_le hn
  exact (readersSettle config n).item depth (by omega)

theorem definitionIn_eq (config : Config) (depth : Nat) (h : l.steps ≤ steps) :
    definitionIn config steps depth l = l.readDefinition config depth := by
  refine settled (definitionIn config · depth l) (fun n hn => ?_) h
  have hn := enough_of_steps_le hn
  exact (readersSettle config n).definition depth (by omega)

theorem groupIn_eq (config : Config) (depth : Nat) (h : l.steps ≤ steps) :
    groupIn config steps depth [] [] l = l.readGroup config depth := by
  refine settled (groupIn config · depth [] [] l) (fun n hn => ?_) h
  exact (readersSettle config n).group depth [] [] (enough_of_steps_le hn)

theorem numberIn_eq (config : Config) (h : l.steps ≤ steps) :
    numberIn config steps l = l.readNumber config := by
  refine settled (numberIn config · l) (fun n hn => ?_) h
  have hn := enough_of_steps_le hn
  exact numberIn_succ config (by omega)

theorem tokenIn_eq (config : Config) (depth : Nat) (h : l.steps ≤ steps) :
    tokenIn config steps depth l = l.readToken config depth := by
  rw [readToken, tokenIn, tokenIn, itemIn_eq config depth h, itemIn_eq config depth (Nat.le_refl _)]

/-! ### Whole programs -/

/-- A token is paid for with a character, and so is a rejection. -/
theorem remaining_of_token {t : Token} (h : l.readToken config depth = (.ok (some t), l')) :
    l'.remaining < l.remaining := by
  rcases hread : itemIn config l.steps depth l with ⟨e | t | _ | _, l₁⟩
  · simp [readToken, tokenIn, hread] at h
  · simp only [readToken, tokenIn, hread, Prod.mk.injEq] at h
    exact h.2 ▸ remaining_of_itemIn hread (.token t)
  · simp [readToken, tokenIn, hread, reject, rejectAt] at h
  · simp [readToken, tokenIn, hread] at h

theorem remaining_of_rejected {r : Rejection}
    (h : l.readToken config depth = (.error (.rejected r), l')) : l'.remaining < l.remaining := by
  rcases hread : itemIn config l.steps depth l with ⟨e | t | _ | _, l₁⟩
  · simp only [readToken, tokenIn, hread, Prod.mk.injEq, Except.error.injEq] at h
    obtain ⟨rfl, rfl⟩ := h
    exact remaining_of_itemIn hread (.rejected r)
  · simp [readToken, tokenIn, hread] at h
  · simp only [readToken, tokenIn, hread, Prod.mk.injEq] at h
    exact h.2 ▸ remaining_of_itemIn hread .groupEnd
  · simp [readToken, tokenIn, hread] at h

/-- The first of the rounds, behind which there are enough for what is left. -/
theorem exists_rounds_collect (config : Config) (depth : Nat) (l : Lexer) :
    ∃ k, l.remaining ≤ k ∧
      l.collect config depth = collectIn config l.steps depth (k + 1) [] [] l :=
  ⟨2 * l.remaining + 2, by omega, rfl⟩

theorem exists_rounds_readList (config : Config) (depth : Nat) (l : Lexer) :
    ∃ k, l.remaining ≤ k ∧
      l.readList config depth = listIn config l.steps depth (k + 1) [] l :=
  ⟨2 * l.remaining + 2, by omega, rfl⟩

/-- What was read before goes in front of what is collected from where the lexer stands, whatever
steps and rounds there are, if they are enough. -/
theorem collectIn_eq {rounds : Nat} (depth : Nat) (ts : List Token) (ds : List Diagnostic)
    (hsteps : l.steps ≤ steps) (hrounds : l.remaining < rounds) :
    collectIn config steps depth rounds ts ds l =
      ((l.collect config depth).1.map (Scope.append ⟨ts.reverse, ds.reverse⟩),
        (l.collect config depth).2) := by
  induction hn : l.remaining using Nat.strongRecOn generalizing l steps rounds ts ds with
  | ind n ih =>
    obtain ⟨rounds, rfl⟩ : ∃ k, rounds = k + 1 := ⟨rounds - 1, by omega⟩
    obtain ⟨k, hk, hwhole⟩ := exists_rounds_collect config depth l
    rcases hread : l.readToken config depth with ⟨(r | f | _) | (_ | t), l₁⟩
    · have hless := remaining_of_rejected hread
      have hle := steps_le (Nat.le_of_lt hless)
      rw [hwhole]
      simp only [collectIn, tokenIn_eq config depth hsteps, tokenIn_eq config depth (Nat.le_refl _),
        hread]
      rw [ih _ (hn ▸ hless) _ _ (by omega) (by omega) rfl,
        ih _ (hn ▸ hless) _ _ hle (by omega) rfl]
      cases (l₁.collect config depth).1 <;> simp [Except.map, Scope.append]
    · rw [hwhole]
      simp only [collectIn, tokenIn_eq config depth hsteps, tokenIn_eq config depth (Nat.le_refl _),
        hread, Except.map]
    · rw [hwhole]
      simp only [collectIn, tokenIn_eq config depth hsteps, tokenIn_eq config depth (Nat.le_refl _),
        hread, Except.map]
    · rw [hwhole]
      simp [collectIn, tokenIn_eq config depth hsteps, tokenIn_eq config depth (Nat.le_refl _),
        hread, Except.map, Scope.append]
    · have hless := remaining_of_token hread
      have hle := steps_le (Nat.le_of_lt hless)
      rw [hwhole]
      simp only [collectIn, tokenIn_eq config depth hsteps, tokenIn_eq config depth (Nat.le_refl _),
        hread]
      rw [ih _ (hn ▸ hless) _ _ (by omega) (by omega) rfl,
        ih _ (hn ▸ hless) _ _ hle (by omega) rfl]
      cases (l₁.collect config depth).1 <;> simp [Except.map, Scope.append]

theorem allIn_eq {rounds : Nat} (config : Config) (depth : Nat) (hsteps : l.steps ≤ steps)
    (hrounds : l.remaining < rounds) :
    allIn config steps depth rounds [] [] l = l.readAll config depth := by
  rw [allIn_eq_collectIn, collectIn_eq depth [] [] hsteps hrounds, readAll_eq_collect]
  cases (l.collect config depth).1 <;> simp [Except.map, Except.bind, Scope.append]

theorem listIn_eq {rounds : Nat} (depth : Nat) (ts : List Token) (hsteps : l.steps ≤ steps)
    (hrounds : l.remaining < rounds) :
    listIn config steps depth rounds ts l =
      ((l.readList config depth).1.map (ts.reverse ++ ·), (l.readList config depth).2) := by
  induction hn : l.remaining using Nat.strongRecOn generalizing l steps rounds ts with
  | ind n ih =>
    obtain ⟨rounds, rfl⟩ : ∃ k, rounds = k + 1 := ⟨rounds - 1, by omega⟩
    obtain ⟨k, hk, hwhole⟩ := exists_rounds_readList config depth l
    rcases hread : l.readToken config depth with ⟨e | _ | t, l₁⟩
    · rw [hwhole]
      simp only [listIn, tokenIn_eq config depth hsteps, tokenIn_eq config depth (Nat.le_refl _),
        hread, Except.map]
    · rw [hwhole]
      simp [listIn, tokenIn_eq config depth hsteps, tokenIn_eq config depth (Nat.le_refl _), hread,
        Except.map]
    · have hless := remaining_of_token hread
      have hle := steps_le (Nat.le_of_lt hless)
      rw [hwhole]
      simp only [listIn, tokenIn_eq config depth hsteps, tokenIn_eq config depth (Nat.le_refl _),
        hread]
      rw [ih _ (hn ▸ hless) _ (by omega) (by omega) rfl,
        ih _ (hn ▸ hless) _ hle (by omega) rfl]
      cases (l₁.readList config depth).1 <;> simp [Except.map]

end Lexer

end Unroll
