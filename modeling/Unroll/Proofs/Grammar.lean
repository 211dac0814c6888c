import Unroll.Proofs.Simulation

/-!
# The grammar

Which texts are programs, said without a lexer. What a character means depends on the macros that
are bound where it stands, so that a phrase leads from the macros before it to those after it, and
since a number ends with its last digit, it leads from what is left of a text to what is left
behind it.

* `Spells` — the texts that spell a phrase;
* `Spells.read` — the machine reads what is spelled;
* `Reads.spelled`, `ReadsAll.spelled` — what is read without a rejection is spelled;
* `Lexer.readAll_ok_iff` — the lexer reads exactly what is spelled.
-/

namespace Unroll

/-! ### Phrases -/

/-- What a piece of text may spell. -/
inductive Phrase where
  /-- characters that are skipped, and definitions -/
  | filler
  | token (t : Token)
  | tokens (ts : List Token)
  /-- definitions without a token that the end of their group comes before -/
  | abandoned

/-- A phrase is spelled by the front of a text, under macros before and after it, with the text
that is left behind it. No more groups and definitions lie inside of each other than the number
says. -/
inductive Spells (config : Config) :
    Phrase → Nat → MacroTable → List Char → MacroTable → List Char → Prop where
  | nothing {n m s} : Spells config .filler n m s m s
  | skip {n c s m s' m'} (h : Acts config m c none) (next : Spells config .filler n m s m' s') :
      Spells config .filler n m (c :: s) m' s'
  | escape {n c e s m s' m'} (h : Acts config m c (some .escapePrefix))
      (next : Spells config .filler n m s m' s') : Spells config .filler n m (c :: e :: s) m' s'
  | escapeNothing {n c m} (h : Acts config m c (some .escapePrefix)) :
      Spells config .filler n m [c] m []
  | definition {n c a s m s₁ m₁ t s₂ m₂ s' m'} (h : Acts config m c (some .macroPrefix))
      (before : Spells config .filler n m s m₁ s₁) (body : Spells config (.token t) n m₁ s₁ m₂ s₂)
      (next : Spells config .filler (n + 1) (m₂.bind a t) s₂ m' s') :
      Spells config .filler (n + 1) m (c :: a :: s) m' s'
  | bound {n c s m t} (h : m.lookup c = some t) : Spells config (.token t) n m (c :: s) m s
  | operator {n c s m} (h : Acts config m c (some .operator)) :
      Spells config (.token (.operator (String.singleton c))) n m (c :: s) m s
  | number {n c digits s m} (h : Acts config m c (some .numberPrefix)) (hne : digits ≠ [])
      (hdigits : ∀ d ∈ digits, Lexer.isDigit d = true)
      (hend : ∀ d ∈ s.head?, Lexer.isDigit d = false)
      (hmax : Lexer.digitsValue digits ≤ maxNumber) :
      Spells config (.token (.number (Lexer.digitsValue digits))) n m (c :: (digits ++ s)) m s
  | group {n c s m ts s₁ m₁ e s' m'} (h : Acts config m c (some .groupStart)) (hne : ts ≠ [])
      (inner : Spells config (.tokens ts) n m s m₁ s₁)
      (abandoned : Spells config .abandoned n m₁ s₁ m' (e :: s'))
      (hend : Acts config m' e (some .groupEnd)) :
      Spells config (.token (.group ts)) (n + 1) m (c :: s) m' s'
  | tokensNil {n s m s' m'} (before : Spells config .filler n m s m' s') :
      Spells config (.tokens []) n m s m' s'
  | tokensCons {n s m s₁ m₁ t s₂ m₂ ts s' m'} (before : Spells config .filler n m s m₁ s₁)
      (head : Spells config (.token t) n m₁ s₁ m₂ s₂)
      (tail : Spells config (.tokens ts) n m₂ s₂ m' s') :
      Spells config (.tokens (t :: ts)) n m s m' s'
  | abandonedNil {n s m} : Spells config .abandoned n m s m s
  | abandonedCons {n c a s m s₁ m₁ s' m'} (h : Acts config m c (some .macroPrefix))
      (before : Spells config .filler n m s m₁ s₁)
      (next : Spells config .abandoned n m₁ s₁ m' s') :
      Spells config .abandoned (n + 1) m (c :: a :: s) m' s'

/-! ### What is spelled is read -/

/-- The stack with an open scope on top of it. -/
def Stack.over (scope : Scope) : Option Stack → Stack
  | none => .top scope
  | some below => .group scope below

theorem Stack.height_over (scope : Scope) (below : Option Stack) :
    (Stack.over scope below).height = (below.map (·.height + 1)).getD 0 := by
  cases below <;> rfl

theorem Machine.deliver_over (t : Token) (cursor : Cursor) (scope : Scope)
    (below : Option Stack) :
    deliver t ⟨cursor, .over scope below⟩ = ⟨cursor, .over (scope.add t) below⟩ := by
  cases below <;> rfl

/-- How the machine reads a phrase. A token is delivered, tokens are added to the open scope, and
abandoned definitions are dropped with the end of their group. -/
def Phrase.Read (config : Config) (depth n : Nat) (m m' : MacroTable) (s s' : List Char) :
    Phrase → Prop
  | .filler => ∀ p stack, 2 * (stack.height + n) < depth →
      ∃ p', Machine.Agree config depth ⟨⟨s, p, m⟩, stack⟩ ⟨⟨s', p', m'⟩, stack⟩
  | .token t => ∀ p stack, 2 * (stack.height + n) < depth →
      ∃ p', Machine.Agree config depth ⟨⟨s, p, m⟩, stack⟩
        (Machine.deliver t ⟨⟨s', p', m'⟩, stack⟩)
  | .tokens ts => ∀ p scope below, 2 * ((Stack.over scope below).height + n) < depth →
      ∃ p', Machine.Agree config depth ⟨⟨s, p, m⟩, .over scope below⟩
        ⟨⟨s', p', m'⟩, .over { scope with tokens := scope.tokens ++ ts } below⟩
  | .abandoned => ∀ p stack, 2 * (stack.height + n) < depth →
      ∃ p' stack', Machine.Agree config depth ⟨⟨s, p, m⟩, stack⟩ ⟨⟨s', p', m'⟩, stack'⟩ ∧
        2 * stack'.height < depth ∧
        ∀ cursor, Machine.close config cursor stack' = Machine.close config cursor stack

open Machine in
/-- The machine reads what is spelled, wherever there is room for it. -/
theorem Spells.read {config : Config} {depth n : Nat} {phrase : Phrase} {m m' : MacroTable}
    {s s' : List Char} (h : Spells config phrase n m s m' s') :
    phrase.Read config depth n m m' s s' := by
  induction h with
  | nothing =>
    intro p stack _
    exact ⟨p, .refl _⟩
  | @skip n c s m s' m' hacts _ ih =>
    intro p stack hroom
    obtain ⟨p', hnext⟩ := ih (p.advance c) stack hroom
    refine ⟨p', (Agree.of_acts hacts (by decide) (by omega) ?_).trans hnext⟩
    simp only [step, hacts.unbound, hacts.role]
  | @escape n c e s m s' m' hacts _ ih =>
    intro p stack hroom
    obtain ⟨p', hnext⟩ := ih ((p.advance c).advance e) stack hroom
    refine ⟨p', (Agree.of_acts hacts (by decide) (by omega) ?_).trans hnext⟩
    simp only [step, hacts.unbound, hacts.role]
  | @escapeNothing n c m hacts =>
    intro p stack hroom
    refine ⟨p.advance c, .of_acts hacts (by decide) (by omega) ?_⟩
    simp only [step, hacts.unbound, hacts.role]
  | @definition n c a s m s₁ m₁ t s₂ m₂ s' m' hacts _ _ _ ihBefore ihBody ihNext =>
    intro p stack hroom
    have hroom' : 2 * ((Stack.pending a stack).height + n) < depth := by
      simp only [Stack.height]
      omega
    have hsymbol := Agree.of_macroPrefix hacts a s p (by omega : 2 * stack.height < depth)
    obtain ⟨p₁, hbefore⟩ := ihBefore ((p.advance c).advance a) (.pending a stack) hroom'
    -- the token is delivered to the definition, which binds it
    obtain ⟨p₂, hbody⟩ := ihBody p₁ (.pending a stack) hroom'
    obtain ⟨p', hnext⟩ := ihNext p₂ stack hroom
    exact ⟨p', ((hsymbol.trans hbefore).trans hbody).trans hnext⟩
  | @bound n c s m t hbound =>
    intro p stack hroom
    exact ⟨p.advance c, .of_bound hbound (by omega)⟩
  | @operator n c s m hacts =>
    intro p stack hroom
    refine ⟨p.advance c, .of_acts hacts (by decide) (by omega) ?_⟩
    simp only [step, hacts.unbound, hacts.role]
  | @number n c digits s m hacts hne hdigits hend hmax =>
    intro p stack hroom
    refine ⟨(p.advance c).advanceBy digits, .of_acts hacts (by decide) (by omega) ?_⟩
    simp only [step, hacts.unbound, hacts.role, Lexer.takeWhile_digits hdigits hend,
      Lexer.dropWhile_digits hdigits hend, Lexer.numeral, if_neg hne, if_pos hmax, hand]
  | @group n c s m ts s₁ m₁ e s' m' hacts hne _ _ hend ihInner ihAbandoned =>
    intro p stack hroom
    have hroom' : 2 * ((Stack.group ⟨ts, []⟩ stack).height + n) < depth := by
      simp only [Stack.height]
      omega
    have hopen : Agree config depth ⟨⟨c :: s, p, m⟩, stack⟩
        ⟨⟨s, p.advance c, m⟩, .group .empty stack⟩ := by
      refine .of_acts hacts (by decide) (by omega) ?_
      simp only [step, hacts.unbound, hacts.role]
    obtain ⟨p₁, hinner⟩ := ihInner (p.advance c) .empty (some stack) hroom'
    obtain ⟨p₂, stack', habandoned, hheight, hclose⟩ :=
      ihAbandoned p₁ (.group ⟨ts, []⟩ stack) hroom'
    -- the group end drops what was abandoned, and the group has tokens and no diagnostics
    have hgroup : Agree config depth ⟨⟨e :: s', p₂, m'⟩, stack'⟩
        (deliver (.group ts) ⟨⟨s', p₂.advance e, m'⟩, stack⟩) := by
      refine .of_acts hend (by decide) hheight ?_
      simp only [step, hend.unbound, hend.role, hclose, close, Scope.group, Report.ofList?,
        List.isEmpty_eq_false_iff.2 hne, Bool.false_eq_true, if_false, hand]
    exact ⟨p₂.advance e, ((hopen.trans hinner).trans habandoned).trans hgroup⟩
  | @tokensNil n s m s' m' _ ih =>
    intro p scope below hroom
    obtain ⟨p', hbefore⟩ := ih p (.over scope below) hroom
    refine ⟨p', ?_⟩
    rw [List.append_nil]
    exact hbefore
  | @tokensCons n s m s₁ m₁ t s₂ m₂ ts s' m' _ _ _ ihBefore ihHead ihTail =>
    intro p scope below hroom
    obtain ⟨p₁, hbefore⟩ := ihBefore p (.over scope below) hroom
    obtain ⟨p₂, hhead⟩ := ihHead p₁ (.over scope below) hroom
    rw [deliver_over] at hhead
    obtain ⟨p', htail⟩ := ihTail p₂ (scope.add t) below (by rwa [Stack.height_over] at hroom ⊢)
    refine ⟨p', (hbefore.trans hhead).trans ?_⟩
    simpa only [Scope.add, List.append_assoc, List.singleton_append] using htail
  | abandonedNil =>
    intro p stack hroom
    exact ⟨p, stack, .refl _, by omega, fun _ => rfl⟩
  | @abandonedCons n c a s m s₁ m₁ s' m' hacts _ _ ihBefore ihNext =>
    intro p stack hroom
    have hroom' : 2 * ((Stack.pending a stack).height + n) < depth := by
      simp only [Stack.height]
      omega
    have hsymbol := Agree.of_macroPrefix hacts a s p (by omega : 2 * stack.height < depth)
    obtain ⟨p₁, hbefore⟩ := ihBefore ((p.advance c).advance a) (.pending a stack) hroom'
    obtain ⟨p', stack', hnext, hheight, hclose⟩ := ihNext p₁ (.pending a stack) hroom'
    exact ⟨p', stack', (hsymbol.trans hbefore).trans hnext, hheight, hclose⟩

/-! ### What is read is spelled -/

/-- The end of a group, with the definitions that it makes abandoned. -/
def EndsGroup (config : Config) (n : Nat) (m : MacroTable) (s : List Char) (after : Cursor) :
    Prop :=
  ∃ e, Spells config .abandoned n m s after.macros (e :: after.rest) ∧
    Acts config after.macros e (some .groupEnd)

/-- What was spelled where a reader has come to an outcome. A rejection tells nothing. -/
def Reader.Spelled (config : Config) (n : Nat) (c after : Cursor) : Reader → Outcome → Prop
  | .item, .token t =>
    ∃ m₁ s₁, Spells config .filler n c.macros c.rest m₁ s₁ ∧
      Spells config (.token t) n m₁ s₁ after.macros after.rest
  | .item, .inputEnd => Spells config .filler n c.macros c.rest after.macros after.rest
  | .item, .groupEnd =>
    ∃ m₁ s₁, Spells config .filler n c.macros c.rest m₁ s₁ ∧ EndsGroup config n m₁ s₁ after
  | .group scope, .token t =>
    scope.found = [] ∧ ∃ ts m₁ s₁, t = .group (scope.tokens ++ ts) ∧ scope.tokens ++ ts ≠ [] ∧
      Spells config (.tokens ts) n c.macros c.rest m₁ s₁ ∧ EndsGroup config n m₁ s₁ after
  | .group _, .inputEnd | .group _, .groupEnd => False
  | _, .rejected _ | _, .tooDeep => True

theorem Reader.spelled_tooDeep {config : Config} {n : Nat} {c after : Cursor} (reader : Reader) :
    reader.Spelled config n c after .tooDeep := by
  cases reader <;> trivial

/-- Filler before an item belongs to the filler of the item. -/
theorem Reader.Spelled.prepend {config : Config} {n : Nat} {c c' after : Cursor} {o : Outcome}
    (hfill : ∀ {m' s'}, Spells config .filler n c'.macros c'.rest m' s' →
      Spells config .filler n c.macros c.rest m' s')
    (h : Reader.item.Spelled config n c' after o) : Reader.item.Spelled config n c after o := by
  cases o with
  | token t =>
    obtain ⟨m₁, s₁, hbefore, htoken⟩ := h
    exact ⟨m₁, s₁, hfill hbefore, htoken⟩
  | groupEnd =>
    obtain ⟨m₁, s₁, hbefore, hend⟩ := h
    exact ⟨m₁, s₁, hfill hbefore, hend⟩
  | inputEnd => exact hfill h
  | rejected _ => trivial
  | tooDeep => trivial

namespace Reads

variable {config : Config} {d : Nat} {c after : Cursor} {o : Outcome}

/-- A group takes two readers. -/
theorem depth_group {scope : Scope} (h : Reads config (.group scope) d c o after)
    (ho : o ≠ .tooDeep) : 1 < d := by
  cases h with
  | tooDeep => exact absurd rfl ho
  | groupTooDeep _ => exact absurd rfl ho
  | groupToken item _ => exact Nat.succ_lt_succ (item.depth_pos (by simp))
  | groupRejected item _ => exact Nat.succ_lt_succ (item.depth_pos (by simp))
  | groupClosed item _ => exact Nat.succ_lt_succ (item.depth_pos (by simp))
  | groupUnclosed item _ => exact Nat.succ_lt_succ (item.depth_pos (by simp))

/-- What is read without a rejection is spelled. -/
theorem spelled {reader : Reader} (h : Reads config reader d c o after) {n : Nat}
    (hn : d ≤ 2 * n + 2 + reader.level) : reader.Spelled config n c after o := by
  induction h generalizing n with
  | tooDeep => exact Reader.spelled_tooDeep _
  | inputEnd => exact .nothing
  | bound hbound => exact ⟨_, _, .nothing, .bound hbound⟩
  | skip hacts _ ih => exact (ih hn).prepend (.skip hacts)
  | operator hacts => exact ⟨_, _, .nothing, .operator hacts⟩
  | groupEnd hacts => exact ⟨_, _, .nothing, _, .abandonedNil, hacts⟩
  | escape hacts _ ih => exact (ih hn).prepend (.escape hacts)
  | escapeNothing hacts => exact .escapeNothing hacts
  | @number d c s p m o hacts ho =>
    subst ho
    rw [Lexer.numeral]
    split
    · trivial
    · rename_i hne
      split
      · rename_i hmax
        have hnumber := Spells.number (n := n) hacts hne Lexer.isDigit_of_mem_takeWhile
          (Lexer.isDigit_head?_dropWhile (s := s)) hmax
        rw [List.takeWhile_append_dropWhile] at hnumber
        exact ⟨_, _, .nothing, hnumber⟩
      · trivial
  | definitionTooDeep => trivial
  | symbolMissing => trivial
  | bodyMissing => trivial
  | bodyRejected => trivial
  | bodyTooDeep => trivial
  | @bodyAbandoned d c a s p m after hacts body ih =>
    have hpos := body.depth_pos (by simp)
    simp only [Reader.level] at hn ih
    obtain ⟨n, rfl⟩ : ∃ k, n = k + 1 := ⟨n - 1, by omega⟩
    obtain ⟨m₁, s₁, hbefore, e, habandoned, hend⟩ := ih (n := n) (by omega)
    exact ⟨_, _, .nothing, e, .abandonedCons hacts hbefore habandoned, hend⟩
  | @definition d c a s p m t s₁ p₁ m₁ o after hacts body _ ihBody ihNext =>
    have hpos := body.depth_pos (by simp)
    simp only [Reader.level] at hn ihBody
    obtain ⟨n, rfl⟩ : ∃ k, n = k + 1 := ⟨n - 1, by omega⟩
    obtain ⟨_, _, hbefore, hbody⟩ := ihBody (n := n) (by omega)
    exact (ihNext hn).prepend (.definition hacts hbefore hbody)
  | @group d c s p m o after hacts inner ih =>
    -- unless it is too deep, the group has left two readers fewer to its items
    by_cases ho : o = .tooDeep
    · subst ho
      trivial
    · have hpos := inner.depth_group ho
      simp only [Reader.level] at hn ih
      obtain ⟨n, rfl⟩ : ∃ k, n = k + 1 := ⟨n - 1, by omega⟩
      have hinner := ih (n := n) (by omega)
      cases o with
      | token t =>
        obtain ⟨-, ts, m₁, s₁, rfl, hne, hspells, e, habandoned, hend⟩ := hinner
        exact ⟨_, _, .nothing, .group hacts hne hspells habandoned hend⟩
      | groupEnd => exact hinner.elim
      | inputEnd => exact hinner.elim
      | rejected _ => trivial
      | tooDeep => trivial
  | @groupToken d scope c t c₁ o after _ _ ihItem ihNext =>
    simp only [Reader.level] at hn ihItem ihNext
    obtain ⟨m₀, s₀, hbefore, htoken⟩ := ihItem (n := n) (by omega)
    have hnext := ihNext (n := n) (by omega)
    cases o with
    | token t' =>
      obtain ⟨hfound, ts, m₁, s₁, heq, hne, hspells, hend⟩ := hnext
      simp only [Scope.add, List.append_assoc, List.singleton_append] at heq hne
      exact ⟨hfound, t :: ts, m₁, s₁, heq, hne, .tokensCons hbefore htoken hspells, hend⟩
    | groupEnd => exact hnext.elim
    | inputEnd => exact hnext.elim
    | rejected _ => trivial
    | tooDeep => trivial
  | @groupRejected d scope c r c₁ o after _ _ _ ihNext =>
    simp only [Reader.level] at hn ihNext
    have hnext := ihNext (n := n) (by omega)
    cases o with
    | token t =>
      obtain ⟨hfound, -⟩ := hnext
      exact absurd (List.append_eq_nil_iff.1 hfound).2 r.diagnostics_ne_nil
    | groupEnd => exact hnext.elim
    | inputEnd => exact hnext.elim
    | rejected _ => trivial
    | tooDeep => trivial
  | groupTooDeep => trivial
  | @groupClosed d scope c o after _ ho ih =>
    subst ho
    simp only [Reader.level] at hn ih
    obtain ⟨m₁, s₁, hbefore, hend⟩ := ih (n := n) (by omega)
    obtain ⟨tokens, found⟩ := scope
    cases found with
    | cons _ _ => trivial
    | nil =>
      cases tokens with
      | nil => trivial
      | cons t ts =>
        refine ⟨rfl, [], m₁, s₁, ?_, ?_, .tokensNil hbefore, hend⟩
        · rw [List.append_nil]
        · exact List.cons_ne_nil t _
  | @groupUnclosed d scope c o after _ ho _ =>
    have hne : (scope.note [⟨after.position, Lexer.unclosed config⟩]).found ≠ [] := by
      simp [Scope.note]
    obtain ⟨r, hgroup, -⟩ := Scope.group_of_found config after.position hne
    rw [hgroup] at ho
    subst ho
    trivial

end Reads

/-! ### Programs -/

namespace ReadsAll

variable {config : Config} {depth : Nat} {scope : Scope} {c after : Cursor}
  {result : Except Lexer.Failure (List Token)}

theorem depth_pos (h : ReadsAll config depth scope c result after)
    (hresult : result ≠ .error .tooDeep) : 0 < depth := by
  cases h with
  | token item _ => exact item.depth_pos (by simp)
  | rejected item _ => exact item.depth_pos (by simp)
  | unopened item _ => exact item.depth_pos (by simp)
  | tooDeep _ => exact absurd rfl hresult
  | inputEnd item => exact item.depth_pos (by simp)

/-- The tokens of a program are spelled by its text. -/
theorem spelled (h : ReadsAll config depth scope c result after) {n : Nat}
    (hn : depth ≤ 2 * n + 2) {all : List Token} (hall : result = .ok all) :
    scope.found = [] ∧ ∃ ts, all = scope.tokens ++ ts ∧
      Spells config (.tokens ts) n c.macros c.rest after.macros [] := by
  induction h with
  | @token scope c t c₁ result after item _ ih =>
    obtain ⟨m₁, s₁, hbefore, htoken⟩ := item.spelled hn
    obtain ⟨hfound, ts, rfl, hspells⟩ := ih hall
    refine ⟨hfound, t :: ts, ?_, .tokensCons hbefore htoken hspells⟩
    simp only [Scope.add, List.append_assoc, List.singleton_append]
  | @rejected scope c r c₁ result after _ _ ih =>
    obtain ⟨hfound, -⟩ := ih hall
    exact absurd (List.append_eq_nil_iff.1 hfound).2 r.diagnostics_ne_nil
  | @unopened scope c c₁ result after _ _ ih =>
    obtain ⟨hfound, -⟩ := ih hall
    exact absurd (List.append_eq_nil_iff.1 hfound).2 (List.cons_ne_nil _ _)
  | tooDeep _ => cases hall
  | @inputEnd scope c after item =>
    obtain ⟨tokens, found⟩ := scope
    cases found with
    | cons _ _ => cases hall
    | nil =>
      obtain rfl : tokens = all := Except.ok.inj hall
      have hbefore : Spells config .filler n c.macros c.rest after.macros after.rest :=
        item.spelled hn
      rw [item.rest_eq_nil] at hbefore
      exact ⟨rfl, [], (List.append_nil _).symm, .tokensNil hbefore⟩

end ReadsAll

namespace Lexer

variable {l : Lexer} {config : Config} {depth : Nat} {s : List Char} {p : Position}
  {m m' : MacroTable} {ts : List Token}

/-- The tokens that a lexer reads are spelled by the text before it. -/
theorem At.spells (h : l.At ⟨s, p, m⟩) (hread : (l.readAll config depth).1 = .ok ts) :
    ∃ n, 2 * n < depth ∧
      Spells config (.tokens ts) n m s (l.readAll config depth).2.macros [] := by
  obtain ⟨result, after, l', heq, hafter, hall⟩ := h.readAll config depth
  rw [heq] at hread ⊢
  obtain rfl : result = .ok ts := hread
  have hpos := hall.depth_pos (by simp)
  obtain ⟨-, ts', rfl, hspells⟩ :=
    hall.spelled (by omega : depth ≤ 2 * ((depth - 1) / 2) + 2) rfl
  have hmacros : l'.macros = after.macros := hafter.macros
  rw [hmacros]
  exact ⟨(depth - 1) / 2, by omega, hspells⟩

/-- On a text that spells tokens the machine ends with them. -/
theorem final_of_spells {n : Nat} (h : Spells config (.tokens ts) n m s m' [])
    (hn : 2 * n < depth) (p : Position) :
    Machine.Fits config depth ⟨⟨s, p, m⟩, .top .empty⟩ ∧
      ∃ p', Machine.final config ⟨⟨s, p, m⟩, .top .empty⟩ = (.ok ts, p', m') := by
  have hroom : 2 * ((Stack.over .empty none).height + n) < depth := by
    simp only [Stack.over, Stack.height]
    omega
  obtain ⟨p', hagree⟩ := h.read p .empty none hroom
  refine ⟨hagree.fits.2 ((Machine.fits_of_nil rfl).2 ?_), p', hagree.final.trans ?_⟩
  · simp only [Stack.over, Stack.height]
    omega
  · rw [Machine.final_of_nil rfl]
    rfl

/-- A text that spells tokens is read as these, or found to be too deep. -/
theorem At.readAll_of_spells {n : Nat} (h : l.At ⟨s, p, m⟩)
    (hspells : Spells config (.tokens ts) n m s m' []) :
    (2 * n < depth → (l.readAll config depth).1 = .ok ts ∧
      (l.readAll config depth).2.macros = m') ∧
    ((l.readAll config depth).1 ≠ .error .tooDeep → (l.readAll config depth).1 = .ok ts ∧
      (l.readAll config depth).2.macros = m') := by
  obtain ⟨hread, hdeep⟩ := h.readAll_final config depth
  -- what the machine comes to does not depend on how many readers there are
  obtain ⟨-, p', hfinal⟩ := final_of_spells hspells (Nat.lt_succ_self _) p
  rw [hfinal] at hread
  simp only [Prod.mk.injEq] at hread
  refine ⟨fun hn => ?_, fun hne => ?_⟩
  · obtain ⟨hresult, -, hmacros⟩ := hread (final_of_spells hspells hn p).1
    exact ⟨hresult, hmacros⟩
  · obtain ⟨hresult, -, hmacros⟩ := hread (Classical.byContradiction fun h => hne (hdeep h))
    exact ⟨hresult, hmacros⟩

/-- The lexer reads exactly the tokens that a text spells and leaves exactly the macros that it
binds, wherever no more groups and definitions lie inside of each other than there are readers for.
With fewer readers, the lexer finds what is spelled too deep. -/
theorem readAll_ok_iff (config : Config) (depth : Nat) (text : List Char) (ts : List Token)
    (m : MacroTable) :
    ((∃ l, (ofText text).readAll config depth = (.ok ts, l) ∧ l.macros = m) ↔
      ∃ n, 2 * n < depth ∧ Spells config (.tokens ts) n .empty text m []) ∧
    ((∃ n, Spells config (.tokens ts) n .empty text m []) →
      (∃ l, (ofText text).readAll config depth = (.ok ts, l) ∧ l.macros = m) ∨
        ((ofText text).readAll config depth).1 = .error .tooDeep) := by
  refine ⟨⟨?_, ?_⟩, ?_⟩
  · rintro ⟨l, hread, rfl⟩
    have hspells := (at_ofText text).spells (congrArg Prod.fst hread)
    rwa [hread] at hspells
  · rintro ⟨n, hn, hspells⟩
    obtain ⟨hresult, hmacros⟩ := ((at_ofText text).readAll_of_spells hspells).1 hn
    exact ⟨_, Prod.ext hresult rfl, hmacros⟩
  · rintro ⟨n, hspells⟩
    by_cases hdeep : ((ofText text).readAll config depth).1 = .error .tooDeep
    · exact .inr hdeep
    · obtain ⟨hresult, hmacros⟩ := ((at_ofText text).readAll_of_spells hspells).2 hdeep
      exact .inl ⟨_, Prod.ext hresult rfl, hmacros⟩

end Lexer

/-- An operator may be put into any number of groups. -/
theorem Spells.nested {config : Config} {m : MacroTable} {o b e : Char}
    (ho : Acts config m o (some .operator)) (hb : Acts config m b (some .groupStart))
    (he : Acts config m e (some .groupEnd)) (n : Nat) (s : List Char) :
    ∃ t, Spells config (.token t) n m
      (List.replicate n b ++ o :: (List.replicate n e ++ s)) m s := by
  induction n generalizing s with
  | zero => exact ⟨_, .operator ho⟩
  | succ n ih =>
    obtain ⟨t, hinner⟩ := ih (e :: s)
    refine ⟨.group [t], ?_⟩
    rw [List.replicate_succ, List.replicate_succ', List.append_assoc]
    exact .group hb (List.cons_ne_nil t []) (.tokensCons .nothing hinner (.tokensNil .nothing))
      .abandonedNil he

/-- A text may be spelled that the lexer finds too deep. -/
theorem Lexer.readAll_not_iff :
    (∃ ts, Spells .standard (.tokens ts) 4000 .empty
      (List.replicate 4000 '(' ++ '+' :: List.replicate 4000 ')') .empty []) ∧
    ((ofText (List.replicate 4000 '(' ++ '+' :: List.replicate 4000 ')')).readAll .standard
      nestingLimit).1 = .error .tooDeep := by
  have ho : Acts .standard .empty '+' (some .operator) := ⟨rfl, rfl⟩
  have hb : Acts .standard .empty '(' (some .groupStart) := ⟨rfl, rfl⟩
  have he : Acts .standard .empty ')' (some .groupEnd) := ⟨rfl, rfl⟩
  have hdepth : nestingLimit ≤ 2 * 4000 := by decide
  obtain ⟨t, ht⟩ := Spells.nested ho hb he 4000 []
  rw [List.append_nil] at ht
  exact ⟨⟨[t], .tokensCons .nothing ht (.tokensNil .nothing)⟩,
    readAll_groupStart hb.role hdepth _⟩

end Unroll
