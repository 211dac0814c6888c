import Unroll.Lexer.Program

/-!
# What readers keep

All that a reader does to a lexer is to look at the next character, to consume it, and to bind a
symbol. What these three keep every reader keeps, whatever it comes to: a token, a rejection, a
fault of the source, or too many readers inside of each other.

* `Lexer.Noted` — the problems that readers find;
* `Lexer.Keeps` — a property of lexers that the three keep, with a property of the tokens that are
  made on the way and one of the diagnostics;
* `Lexer.Kept` — what a reader has come to has these properties;
* `Lexer.Keeps.readers`, `Lexer.Keeps.allIn` and so on — every reader keeps what the three keep.
-/

namespace Unroll

namespace Lexer

/-- The problems that readers find in a program. -/
inductive Noted (config : Config) : Problem → Prop where
  | numberMissing : Noted config (numberMissing config)
  | numberOverflow (digits : List Char) : Noted config (numberOverflow config digits)
  | macroMissing : Noted config (macroMissing config)
  | emptyGroup : Noted config (emptyGroup config)
  | unclosed : Noted config (unclosed config)
  | unopened : Noted config (unopened config)

/-- A property of lexers that is kept by looking at characters, consuming them and binding symbols,
with a property of the tokens that are made, and one of the diagnostics that are found. -/
structure Keeps (config : Config) (State : Lexer → Prop) (Made : Token → Prop)
    (Found : Diagnostic → Prop) : Prop where
  peek {l : Lexer} (h : State l) : State l.peek.2
  consume {l l' : Lexer} {c : Char} (h : State l) (hpeek : l.peek = (.ok (some c), l')) :
    State (l'.consume c)
  bindMacro {l : Lexer} {body : Token} (h : State l) (hbody : Made body) (symbol : Char) :
    State (l.bindMacro symbol body)
  bound {l : Lexer} {c : Char} {t : Token} (h : State l) (ht : l.macros.lookup c = some t) : Made t
  operator {c : Char} (h : config.roleOf c = some .operator) :
    Made (.operator (String.singleton c))
  number {n : Nat} (h : n ≤ maxNumber) : Made (.number n)
  group {ts : List Token} (hne : ts ≠ []) (h : ∀ t ∈ ts, Made t) : Made (.group ts)
  found {l : Lexer} {problem : Problem} (h : State l) (hp : Noted config problem) :
    Found ⟨l.position, problem⟩

/-- The lexer that a reader leaves behind, what it has made, and the diagnostics of its rejection
have the properties. -/
structure Kept {α : Type} (State : Lexer → Prop) (Made : α → Prop) (Found : Diagnostic → Prop)
    (read : Except Failure α × Lexer) : Prop where
  state : State read.2
  made {a : α} (h : read.1 = .ok a) : Made a
  found {r : Rejection} (h : read.1 = .error (.rejected r)) : ∀ d ∈ r.diagnostics, Found d

/-- The token of an item, if it is one, has a property. -/
def Item.Holds (Made : Token → Prop) : Item → Prop
  | .token t => Made t
  | .groupEnd | .inputEnd => True

section

variable {config : Config} {State : Lexer → Prop} {Made : Token → Prop} {Found : Diagnostic → Prop}
  {α β : Type} {P : α → Prop} {Q : β → Prop} {l l' : Lexer}

/-! ### Results -/

theorem Kept.ok {a : α} (hl : State l) (ha : P a) : Kept State P Found (.ok a, l) :=
  ⟨hl, fun h => Except.ok.inj h ▸ ha, by simp⟩

theorem Kept.input (hl : State l) (f : Fault) : Kept State P Found (.error (.input f), l) :=
  ⟨hl, by simp, by simp⟩

theorem Kept.tooDeep (hl : State l) : Kept State P Found (.error .tooDeep, l) :=
  ⟨hl, by simp, by simp⟩

theorem Kept.rejected {r : Rejection} (hl : State l) (hr : ∀ d ∈ r.diagnostics, Found d) :
    Kept State P Found (.error (.rejected r), l) := by
  refine ⟨hl, by simp, fun h => ?_⟩
  obtain rfl : r = _ := by simpa using h
  exact hr

/-- Nothing was made where reading failed, so that it does not matter what it would have been. -/
theorem Kept.error {e : Failure} (h : Kept State P Found (.error e, l)) :
    Kept State Q Found (.error e, l) := by
  refine ⟨h.state, by simp, fun hr => h.found ?_⟩
  rw [Except.error.inj hr]

/-! ### Characters -/

theorem Keeps.of_peek (h : Keeps config State Made Found) (hl : State l)
    {result : Except Fault (Option Char)} (hpeek : l.peek = (result, l')) : State l' := by
  have hkept := h.peek hl
  rwa [hpeek] at hkept

theorem Keeps.of_next (h : Keeps config State Made Found) (hl : State l)
    {result : Except Fault (Option Char)} (hnext : l.next = (result, l')) : State l' := by
  rcases hpeek : l.peek with ⟨f | _ | c, l₁⟩
  · simp only [next, hpeek, Prod.mk.injEq] at hnext
    exact hnext.2 ▸ h.of_peek hl hpeek
  · simp only [next, hpeek, Prod.mk.injEq] at hnext
    exact hnext.2 ▸ h.of_peek hl hpeek
  · simp only [next, hpeek, Prod.mk.injEq] at hnext
    exact hnext.2 ▸ h.consume hl hpeek

theorem Keeps.of_takeDigits (h : Keeps config State Made Found) (hl : State l) {steps : Nat}
    {done : List Char} {result : Except Fault (List Char)}
    (htake : takeDigits steps done l = (result, l')) : State l' := by
  induction steps generalizing l done with
  | zero =>
    simp only [takeDigits, Prod.mk.injEq] at htake
    exact htake.2 ▸ hl
  | succ steps ih =>
    rcases hpeek : l.peek with ⟨f | _ | c, l₁⟩
    · simp only [takeDigits, hpeek, Prod.mk.injEq] at htake
      exact htake.2 ▸ h.of_peek hl hpeek
    · simp only [takeDigits, hpeek, Prod.mk.injEq] at htake
      exact htake.2 ▸ h.of_peek hl hpeek
    · simp only [takeDigits, hpeek] at htake
      by_cases hc : isDigit c = true
      · rw [if_pos hc] at htake
        exact ih (h.consume hl hpeek) htake
      · rw [if_neg hc, Prod.mk.injEq] at htake
        exact htake.2 ▸ h.of_peek hl hpeek

/-! ### Diagnostics and numbers -/

theorem Keeps.reject (h : Keeps config State Made Found) (hl : State l) (hl' : State l')
    {problem : Problem} (hp : Noted config problem) :
    Kept State P Found (l.reject problem, l') :=
  .rejected hl' (List.forall_mem_singleton.2 (h.found hl hp))

theorem boundedValue?_le {digits : List Char} {n : Nat} (h : boundedValue? digits = some n) :
    n ≤ maxNumber := by
  simp only [boundedValue?] at h
  split at h
  · cases h
  · split at h
    · cases h
    · rename_i hle
      exact Option.some.inj h ▸ Nat.le_of_not_lt hle

theorem Keeps.numberIn (h : Keeps config State Made Found) (steps : Nat) (hl : State l) :
    Kept State Made Found (numberIn config steps l) := by
  rcases htake : takeDigits steps [] l with ⟨f | digits, l₁⟩
  · simp only [Lexer.numberIn, htake]
    exact .input (h.of_takeDigits hl htake) f
  · have h₁ := h.of_takeDigits hl htake
    cases digits with
    | nil =>
      simp only [Lexer.numberIn, htake]
      exact h.reject hl h₁ .numberMissing
    | cons d ds =>
      simp only [Lexer.numberIn, htake]
      cases hvalue : boundedValue? (d :: ds) with
      | none => exact h.reject hl h₁ (.numberOverflow _)
      | some n => exact .ok h₁ (h.number (boundedValue?_le hvalue))

/-- What a group comes to at its end. -/
theorem Keeps.finishGroup (h : Keeps config State Made Found) (hl : State l) {tokens : List Token}
    {found : List Diagnostic} (htokens : ∀ t ∈ tokens, Made t) (hfound : ∀ d ∈ found, Found d) :
    Kept State Made Found (finishGroup config tokens found l, l) := by
  rcases hrev : found.reverse with _ | ⟨d, ds⟩
  · cases tokens with
    | nil =>
      simp only [Lexer.finishGroup, hrev, Report.ofList?, List.isEmpty_nil, if_true]
      exact h.reject hl hl .emptyGroup
    | cons t ts =>
      simp only [Lexer.finishGroup, hrev, Report.ofList?, List.isEmpty_cons, Bool.false_eq_true,
        if_false]
      refine .ok hl (h.group (by simp) fun u hu => htokens u ?_)
      rwa [List.mem_reverse] at hu
  · simp only [Lexer.finishGroup, hrev, Report.ofList?]
    refine .rejected hl fun e (he : e ∈ d :: ds) => hfound e ?_
    rwa [← hrev, List.mem_reverse] at he

/-! ### The readers -/

/-- With so many steps, the readers keep the properties. -/
structure ReadersKeep (config : Config) (State : Lexer → Prop) (Made : Token → Prop)
    (Found : Diagnostic → Prop) (steps : Nat) : Prop where
  item (depth : Nat) {l : Lexer} (hl : State l) :
    Kept State (Item.Holds Made) Found (itemIn config steps depth l)
  definition (depth : Nat) {l : Lexer} (hl : State l) :
    Kept State (fun _ => True) Found (definitionIn config steps depth l)
  group (depth : Nat) {l : Lexer} {tokens : List Token} {found : List Diagnostic} (hl : State l)
    (htokens : ∀ t ∈ tokens, Made t) (hfound : ∀ d ∈ found, Found d) :
    Kept State Made Found (groupIn config steps depth tokens found l)

theorem Keeps.itemIn_succ (h : Keeps config State Made Found) {steps : Nat}
    (ih : ReadersKeep config State Made Found steps) (depth : Nat) (hl : State l) :
    Kept State (Item.Holds Made) Found (itemIn config (steps + 1) depth l) := by
  cases depth with
  | zero =>
    simp only [itemIn]
    exact .tooDeep hl
  | succ depth =>
    rcases hnext : l.next with ⟨f | _ | c, l₁⟩
    · simp only [itemIn, hnext]
      exact .input (h.of_next hl hnext) f
    · simp only [itemIn, hnext]
      exact .ok (h.of_next hl hnext) trivial
    have h₁ := h.of_next hl hnext
    rcases hbound : l₁.macros.lookup c with _ | t
    · rcases hrole : config.roleOf c with _ | role
      · simp only [itemIn, hnext, hbound, hrole]
        exact ih.item (depth + 1) h₁
      cases role with
      | operator =>
        simp only [itemIn, hnext, hbound, hrole]
        exact .ok h₁ (h.operator hrole)
      | groupEnd =>
        simp only [itemIn, hnext, hbound, hrole]
        exact .ok h₁ trivial
      | escapePrefix =>
        rcases hskip : l₁.next with ⟨f | _, l₂⟩
        · simp only [itemIn, hnext, hbound, hrole, hskip]
          exact .input (h.of_next h₁ hskip) f
        · simp only [itemIn, hnext, hbound, hrole, hskip]
          exact ih.item (depth + 1) (h.of_next h₁ hskip)
      | numberPrefix =>
        have hnumber := h.numberIn steps h₁
        rcases hread : Lexer.numberIn config steps l₁ with ⟨e | t, l₂⟩
        · rw [hread] at hnumber
          simp only [itemIn, hnext, hbound, hrole, hread]
          exact hnumber.error
        · rw [hread] at hnumber
          simp only [itemIn, hnext, hbound, hrole, hread]
          exact .ok hnumber.state (hnumber.made rfl)
      | macroPrefix =>
        have hdefinition := ih.definition depth h₁
        rcases hread : definitionIn config steps depth l₁ with ⟨e | _ | _, l₂⟩
        · rw [hread] at hdefinition
          simp only [itemIn, hnext, hbound, hrole, hread]
          exact hdefinition.error
        · rw [hread] at hdefinition
          simp only [itemIn, hnext, hbound, hrole, hread]
          exact ih.item (depth + 1) hdefinition.state
        · rw [hread] at hdefinition
          simp only [itemIn, hnext, hbound, hrole, hread]
          exact .ok hdefinition.state trivial
      | groupStart =>
        have hgroup := ih.group depth h₁ (List.forall_mem_nil Made) (List.forall_mem_nil Found)
        rcases hread : groupIn config steps depth [] [] l₁ with ⟨e | t, l₂⟩
        · rw [hread] at hgroup
          simp only [itemIn, hnext, hbound, hrole, hread]
          exact hgroup.error
        · rw [hread] at hgroup
          simp only [itemIn, hnext, hbound, hrole, hread]
          exact .ok hgroup.state (hgroup.made rfl)
    · simp only [itemIn, hnext, hbound]
      exact .ok h₁ (h.bound h₁ hbound)

theorem Keeps.definitionIn_succ (h : Keeps config State Made Found) {steps : Nat}
    (ih : ReadersKeep config State Made Found steps) (depth : Nat) (hl : State l) :
    Kept State (fun _ => True) Found (definitionIn config (steps + 1) depth l) := by
  cases depth with
  | zero =>
    simp only [definitionIn]
    exact .tooDeep hl
  | succ depth =>
    rcases hnext : l.next with ⟨f | _ | symbol, l₁⟩
    · simp only [definitionIn, hnext]
      exact .input (h.of_next hl hnext) f
    · simp only [definitionIn, hnext]
      exact h.reject (h.of_next hl hnext) (h.of_next hl hnext) .macroMissing
    have hbody := ih.item depth (h.of_next hl hnext)
    rcases hread : itemIn config steps depth l₁ with ⟨e | body | _ | _, l₂⟩
    · rw [hread] at hbody
      simp only [definitionIn, hnext, hread]
      exact hbody.error
    · rw [hread] at hbody
      simp only [definitionIn, hnext, hread]
      exact .ok (h.bindMacro hbody.state (hbody.made rfl) symbol) trivial
    · rw [hread] at hbody
      simp only [definitionIn, hnext, hread]
      exact .ok hbody.state trivial
    · rw [hread] at hbody
      simp only [definitionIn, hnext, hread]
      exact h.reject hbody.state hbody.state .macroMissing

theorem Keeps.groupIn_succ (h : Keeps config State Made Found) {steps : Nat}
    (ih : ReadersKeep config State Made Found steps) (depth : Nat) {tokens : List Token}
    {found : List Diagnostic} (hl : State l) (htokens : ∀ t ∈ tokens, Made t)
    (hfound : ∀ d ∈ found, Found d) :
    Kept State Made Found (groupIn config (steps + 1) depth tokens found l) := by
  cases depth with
  | zero =>
    simp only [groupIn]
    exact .tooDeep hl
  | succ depth =>
    have hitem := ih.item depth hl
    rcases hread : itemIn config steps depth l with ⟨(r | f | _) | (t | _ | _), l₁⟩
    · rw [hread] at hitem
      simp only [groupIn, hread]
      refine ih.group (depth + 1) hitem.state htokens fun d hd => ?_
      rcases List.mem_append.1 hd with hd | hd
      · exact hitem.found rfl d (List.mem_reverse.1 hd)
      · exact hfound d hd
    · rw [hread] at hitem
      simp only [groupIn, hread]
      exact .input hitem.state f
    · rw [hread] at hitem
      simp only [groupIn, hread]
      exact .tooDeep hitem.state
    · rw [hread] at hitem
      simp only [groupIn, hread]
      exact ih.group (depth + 1) hitem.state
        (List.forall_mem_cons.2 ⟨hitem.made rfl, htokens⟩) hfound
    · rw [hread] at hitem
      simp only [groupIn, hread]
      exact h.finishGroup hitem.state htokens hfound
    · rw [hread] at hitem
      simp only [groupIn, hread]
      exact h.finishGroup hitem.state htokens
        (List.forall_mem_cons.2 ⟨h.found hitem.state .unclosed, hfound⟩)

/-- The readers keep what looking, consuming and binding keep, whatever their steps. -/
theorem Keeps.readers (h : Keeps config State Made Found) (steps : Nat) :
    ReadersKeep config State Made Found steps := by
  induction steps with
  | zero =>
    refine ⟨fun depth l hl => ?_, fun depth l hl => ?_, fun depth l tokens found hl ht hf => ?_⟩
    · rw [itemIn]
      exact .ok hl trivial
    · rw [definitionIn]
      exact .ok hl trivial
    · rw [groupIn]
      exact h.finishGroup hl ht hf
  | succ steps ih =>
    exact ⟨fun depth _ hl => h.itemIn_succ ih depth hl,
      fun depth _ hl => h.definitionIn_succ ih depth hl,
      fun depth _ _ _ hl ht hf => h.groupIn_succ ih depth hl ht hf⟩

/-! ### Whole programs -/

theorem Keeps.tokenIn (h : Keeps config State Made Found) (steps depth : Nat) (hl : State l) :
    Kept State (fun t? => ∀ t ∈ t?, Made t) Found (tokenIn config steps depth l) := by
  have hitem := (h.readers steps).item depth hl
  rcases hread : itemIn config steps depth l with ⟨e | t | _ | _, l₁⟩
  · rw [hread] at hitem
    simp only [Lexer.tokenIn, hread]
    exact hitem.error
  · rw [hread] at hitem
    simp only [Lexer.tokenIn, hread]
    exact .ok hitem.state fun u hu => Option.some.inj hu ▸ hitem.made rfl
  · rw [hread] at hitem
    simp only [Lexer.tokenIn, hread]
    exact h.reject hitem.state hitem.state .unopened
  · rw [hread] at hitem
    simp only [Lexer.tokenIn, hread]
    exact .ok hitem.state (by simp)

theorem Keeps.allIn (h : Keeps config State Made Found) (steps depth rounds : Nat)
    {tokens : List Token} {found : List Diagnostic} (hl : State l)
    (htokens : ∀ t ∈ tokens, Made t) (hfound : ∀ d ∈ found, Found d) :
    Kept State (fun ts => ∀ t ∈ ts, Made t) Found
      (allIn config steps depth rounds tokens found l) := by
  have hreverse : ∀ {ts : List Token}, (∀ t ∈ ts, Made t) → ∀ t ∈ ts.reverse, Made t :=
    fun hts t ht => hts t (List.mem_reverse.1 ht)
  induction rounds generalizing l tokens found with
  | zero =>
    rw [Lexer.allIn]
    exact .ok hl (hreverse htokens)
  | succ rounds ih =>
    have htoken := h.tokenIn steps depth hl
    rcases hread : Lexer.tokenIn config steps depth l with ⟨(r | f | _) | (_ | t), l₁⟩
    · rw [hread] at htoken
      simp only [Lexer.allIn, hread]
      refine ih htoken.state htokens fun d hd => ?_
      rcases List.mem_append.1 hd with hd | hd
      · exact htoken.found rfl d (List.mem_reverse.1 hd)
      · exact hfound d hd
    · rw [hread] at htoken
      simp only [Lexer.allIn, hread]
      exact .input htoken.state f
    · rw [hread] at htoken
      simp only [Lexer.allIn, hread]
      exact .tooDeep htoken.state
    · rw [hread] at htoken
      rcases hrev : found.reverse with _ | ⟨d, ds⟩
      · simp only [Lexer.allIn, hread, hrev, Report.ofList?]
        exact .ok htoken.state (hreverse htokens)
      · simp only [Lexer.allIn, hread, hrev, Report.ofList?]
        refine .rejected htoken.state fun e (he : e ∈ d :: ds) => hfound e ?_
        rwa [← hrev, List.mem_reverse] at he
    · rw [hread] at htoken
      simp only [Lexer.allIn, hread]
      exact ih htoken.state (List.forall_mem_cons.2 ⟨htoken.made rfl t rfl, htokens⟩) hfound

theorem Keeps.listIn (h : Keeps config State Made Found) (steps depth rounds : Nat)
    {tokens : List Token} (hl : State l) (htokens : ∀ t ∈ tokens, Made t) :
    Kept State (fun ts => ∀ t ∈ ts, Made t) Found
      (listIn config steps depth rounds tokens l) := by
  have hreverse : ∀ {ts : List Token}, (∀ t ∈ ts, Made t) → ∀ t ∈ ts.reverse, Made t :=
    fun hts t ht => hts t (List.mem_reverse.1 ht)
  induction rounds generalizing l tokens with
  | zero =>
    rw [Lexer.listIn]
    exact .ok hl (hreverse htokens)
  | succ rounds ih =>
    have htoken := h.tokenIn steps depth hl
    rcases hread : Lexer.tokenIn config steps depth l with ⟨e | _ | t, l₁⟩
    · rw [hread] at htoken
      simp only [Lexer.listIn, hread]
      exact htoken.error
    · rw [hread] at htoken
      simp only [Lexer.listIn, hread]
      exact .ok htoken.state (hreverse htokens)
    · rw [hread] at htoken
      simp only [Lexer.listIn, hread]
      exact ih htoken.state (List.forall_mem_cons.2 ⟨htoken.made rfl t rfl, htokens⟩)

end

end Lexer

end Unroll
