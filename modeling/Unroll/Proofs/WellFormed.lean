import Unroll.Proofs.Grammar
import Unroll.Proofs.Invariants
import Unroll.Proofs.Roles

/-!
# Well-formed tokens

Tokens may be put together that no program has: negative numbers, empty groups, operators that are
no characters of the configuration. The lexer makes none of these, and binds none of them.

* `Token.WellFormed` — a token that a program may have;
* `MacroTable.WellFormed` — all macros are bound to such tokens;
* `Token.Spelled`, `Spells.made` — what tokens that are spelled have in common, if the macros before
  them have it;
* `Token.spelled_wellFormed`, `Lexer.keeps_wellFormed` — what is spelled is well-formed, and so is
  what is read from any source, also if reading fails later.
-/

namespace Unroll

/-- A token that a program may have: its numbers are in bounds, its operators are those of the
configuration, and none of its groups is empty. -/
inductive Token.WellFormed (config : Config) : Token → Prop where
  | number {n : Int} (hpos : 0 ≤ n) (hmax : n ≤ maxNumber) : WellFormed config (.number n)
  | operator {c : Char} (h : ↑c ∈ config.operators) :
      WellFormed config (.operator (String.singleton c))
  | group {ts : List Token} (hne : ts ≠ []) (h : ∀ t ∈ ts, WellFormed config t) :
      WellFormed config (.group ts)

/-- All macros are bound to well-formed tokens. -/
def MacroTable.WellFormed (config : Config) (m : MacroTable) : Prop :=
  ∀ c t, m.lookup c = some t → t.WellFormed config

namespace MacroTable

theorem wellFormed_empty (config : Config) : empty.WellFormed config := by
  intro c t h
  cases h

theorem of_bind {Made : Token → Prop} {m : MacroTable} (h : ∀ c t, m.lookup c = some t → Made t)
    {t : Token} (ht : Made t) (symbol : Char) :
    ∀ c u, (m.bind symbol t).lookup c = some u → Made u := by
  intro c u hu
  rw [lookup_bind] at hu
  by_cases hc : c = symbol
  · rw [if_pos hc] at hu
    rwa [← Option.some.inj hu]
  · rw [if_neg hc] at hu
    exact h c u hu

end MacroTable

/-- A property that the tokens of a phrase have. -/
def Phrase.Holds (Made : Token → Prop) : Phrase → Prop
  | .token t => Made t
  | .tokens ts => ∀ t ∈ ts, Made t
  | .filler | .abandoned => True

/-- A property that every token has that is spelled with characters of the right roles, if the tokens
in it have it. -/
structure Token.Spelled (config : Config) (Made : Token → Prop) : Prop where
  operator {c : Char} (h : config.roleOf c = some .operator) :
    Made (.operator (String.singleton c))
  number {c : Char} (h : config.roleOf c = some .numberPrefix) {n : Nat} (hmax : n ≤ maxNumber) :
    Made (.number n)
  group {c e : Char} (h : config.roleOf c = some .groupStart)
    (hend : config.roleOf e = some .groupEnd) {ts : List Token} (hne : ts ≠ [])
    (hts : ∀ t ∈ ts, Made t) : Made (.group ts)

/-- What is spelled has such a property if the macros before it have it, and so have the macros after
it. -/
theorem Spells.made {config : Config} {Made : Token → Prop} (hmade : Token.Spelled config Made)
    {phrase : Phrase} {n : Nat} {m m' : MacroTable} {s s' : List Char}
    (h : Spells config phrase n m s m' s') (hm : ∀ c t, m.lookup c = some t → Made t) :
    phrase.Holds Made ∧ ∀ c t, m'.lookup c = some t → Made t := by
  induction h with
  | nothing => exact ⟨trivial, hm⟩
  | skip _ _ ih => exact ih hm
  | escape _ _ ih => exact ih hm
  | escapeNothing _ => exact ⟨trivial, hm⟩
  | definition _ _ _ _ ihBefore ihBody ihNext =>
    obtain ⟨-, hbefore⟩ := ihBefore hm
    obtain ⟨ht, hbody⟩ := ihBody hbefore
    exact ihNext (MacroTable.of_bind hbody ht _)
  | bound h => exact ⟨hm _ _ h, hm⟩
  | operator h => exact ⟨hmade.operator h.role, hm⟩
  | number h _ _ _ hmax => exact ⟨hmade.number h.role hmax, hm⟩
  | group h hne _ _ hend ihInner ihAbandoned =>
    obtain ⟨hts, hinner⟩ := ihInner hm
    obtain ⟨-, habandoned⟩ := ihAbandoned hinner
    exact ⟨hmade.group h.role hend.role hne hts, habandoned⟩
  | tokensNil _ ih =>
    obtain ⟨-, hbefore⟩ := ih hm
    exact ⟨List.forall_mem_nil _, hbefore⟩
  | tokensCons _ _ _ ihBefore ihHead ihTail =>
    obtain ⟨-, hbefore⟩ := ihBefore hm
    obtain ⟨ht, hhead⟩ := ihHead hbefore
    obtain ⟨hts, htail⟩ := ihTail hhead
    exact ⟨List.forall_mem_cons.2 ⟨ht, hts⟩, htail⟩
  | abandonedNil => exact ⟨trivial, hm⟩
  | abandonedCons _ _ _ ihBefore ihNext =>
    obtain ⟨-, hbefore⟩ := ihBefore hm
    exact ihNext hbefore

theorem Token.spelled_wellFormed (config : Config) :
    Token.Spelled config (Token.WellFormed config) where
  operator h := .operator (Config.roleOf_eq_operator_iff.1 h)
  number _ _ hmax := .number (Int.natCast_nonneg _) (Int.ofNat_le.2 hmax)
  group _ _ _ hne hts := .group hne hts

/-! ### Readers -/

namespace Lexer

@[simp] theorem macros_peek (l : Lexer) : l.peek.2.macros = l.macros := by
  rw [peek]
  split
  · rfl
  · split <;> rfl

/-- The readers make well-formed tokens only, whatever the source does, and report what readers
note. -/
theorem keeps_wellFormed (config : Config) :
    Keeps config (fun l => l.macros.WellFormed config) (Token.WellFormed config)
      (fun d => Noted config d.problem) where
  peek {l} h := by
    rw [macros_peek]
    exact h
  consume {l l' c} h hpeek := by
    have hmacros := macros_peek l
    rw [hpeek] at hmacros
    rw [consume, hmacros]
    exact h
  bindMacro h hbody symbol := MacroTable.of_bind h hbody symbol
  bound h hlookup := h _ _ hlookup
  operator h := .operator (Config.roleOf_eq_operator_iff.1 h)
  number h := .number (Int.natCast_nonneg _) (Int.ofNat_le.2 h)
  group hne h := .group hne h
  found _ hp := hp

/-- What is read from the start of a source. -/
theorem kept_readAll (config : Config) (depth : Nat) (source : Source) :
    Kept (fun l => l.macros.WellFormed config) (fun ts => ∀ t ∈ ts, t.WellFormed config)
      (fun d => Noted config d.problem) ((ofSource source).readAll config depth) :=
  (keeps_wellFormed config).allIn _ _ _ (MacroTable.wellFormed_empty config)
    (List.forall_mem_nil _) (List.forall_mem_nil _)

end Lexer

end Unroll
