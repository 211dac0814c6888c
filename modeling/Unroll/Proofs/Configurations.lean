import Mathlib.Data.List.Induction
import Mathlib.Data.List.Nodup
import Unroll.Config.Settings
import Unroll.Proofs.Results
import Unroll.Proofs.Roles

/-!
# Configurations and their settings

A configuration is checked when it is made of settings. What can be wrong with settings whose names
are known and whose operators have elements is found by this check alone.

* `Config.ofSettings_ofConfig` — the settings that describe a configuration give it;
* `Settings.Fault.Invalid`, `Config.ofSettings_error` — what the check finds;
* `Settings.ofFields_known` — fields of known names are settings.
-/

namespace Unroll

open Json (Value)

/-! ### Repetitions -/

theorem eraseDups_of_nodup {α : Type} [BEq α] [LawfulBEq α] {as : List α} (h : as.Nodup) :
    as.eraseDups = as := by
  induction as with
  | nil => rfl
  | cons a as ih =>
    obtain ⟨ha, has⟩ := List.nodup_cons.1 h
    rw [List.eraseDups_cons, List.filter_eq_self.2, ih has]
    intro b hb
    simpa using fun heq : b = a => ha (heq ▸ hb)

/-- The different elements of a list stand in the order in which they first stand in it. -/
theorem pairwise_eraseDups {α : Type} [BEq α] [LawfulBEq α] (as : List α) :
    as.eraseDups.Pairwise fun a b => as.idxOf a < as.idxOf b := by
  induction as using List.reverseRecOn with
  | nil => exact .nil
  | append_singleton as a ih =>
    have hold : as.eraseDups.Pairwise fun b c =>
        (as ++ [a]).idxOf b < (as ++ [a]).idxOf c := by
      refine ih.imp_of_mem fun hb hc hlt => ?_
      rwa [List.idxOf_append_of_mem (List.mem_eraseDups.1 hb),
        List.idxOf_append_of_mem (List.mem_eraseDups.1 hc)]
    rw [List.eraseDups_append]
    by_cases ha : a ∈ as
    · simpa [List.removeAll, ha] using hold
    · have hnew : ([a].removeAll as).eraseDups = [a] := by
        simp [List.removeAll, ha, List.eraseDups_cons]
      rw [hnew]
      refine List.pairwise_append.2 ⟨hold, List.pairwise_singleton _ _, fun b hb c hc => ?_⟩
      obtain rfl := List.mem_singleton.1 hc
      have hb' := List.mem_eraseDups.1 hb
      rw [List.idxOf_append_of_mem hb', List.idxOf_append_of_notMem ha]
      exact Nat.lt_add_right _ (List.idxOf_lt_length_of_mem hb')

namespace Config

/-! ### The settings of a configuration -/

theorem readOperators_text (cs : CodeText) : readOperators (.text cs) = .ok cs := by
  simp only [readOperators, elements?]
  induction cs with
  | nil => rfl
  | cons c cs ih =>
    rw [List.map_cons, List.mapM_cons, ih]
    rfl

theorem readSymbol_singleton (role : Role) {c : CodePoint} {table : List (CodePoint × Role)}
    (h : c ∉ table.map (·.1)) : readSymbol role (.text [c]) table = .ok ⟨c, h⟩ := by
  have hnone : table.find? (·.1 = c) = none := by
    rw [List.find?_eq_none]
    intro entry hentry heq
    refine h (List.mem_map.2 ⟨entry, hentry, ?_⟩)
    simpa using heq
  simp only [readSymbol, char?]
  split
  · rename_i entry hentry
    rw [hnone] at hentry
    cases hentry
  · rfl

/-- The settings that describe a configuration give it. -/
theorem ofSettings_ofConfig (config : Config) : ofSettings (.ofConfig config) = .ok config := by
  obtain ⟨operators, groupStart, groupEnd, numberPrefix, macroPrefix, escapePrefix, hnodup⟩ :=
    config
  have hdistinct : operators.eraseDups = operators :=
    eraseDups_of_nodup (List.nodup_append.1 hnodup).1
  have hchars : ∀ given : List (CodePoint × Role),
      ((operators.eraseDups.map fun c => (c, Role.operator)) ++ given).map (·.1) =
        operators ++ given.map (·.1) := by
    intro given
    rw [hdistinct, List.map_append, List.map_map, Function.comp_def, List.map_id']
  simp only [List.nodup_append, List.nodup_cons, List.mem_cons, List.not_mem_nil, or_false,
    not_or] at hnodup
  obtain ⟨-, ⟨⟨hse, hsn, hsm, hsx⟩, ⟨hen, hem, hex⟩, ⟨hnm, hnx⟩, hmx, -⟩, hop⟩ := hnodup
  -- each symbol is looked for in the table of those before it
  have h₁ : groupStart ∉ (operators.eraseDups.map fun c => (c, Role.operator)).map (·.1) := by
    have hnone := hchars []
    rw [List.append_nil] at hnone
    rw [hnone]
    grind
  have h₂ : groupEnd ∉ ((operators.eraseDups.map fun c => (c, Role.operator)) ++
      [(groupStart, Role.groupStart)]).map (·.1) := by
    rw [hchars]
    grind
  have h₃ : numberPrefix ∉ ((operators.eraseDups.map fun c => (c, Role.operator)) ++
      [(groupStart, Role.groupStart)] ++ [(groupEnd, Role.groupEnd)]).map (·.1) := by
    rw [List.append_assoc, hchars]
    grind
  have h₄ : macroPrefix ∉ ((operators.eraseDups.map fun c => (c, Role.operator)) ++
      [(groupStart, Role.groupStart)] ++ [(groupEnd, Role.groupEnd)] ++
      [(numberPrefix, Role.numberPrefix)]).map (·.1) := by
    rw [List.append_assoc, List.append_assoc, hchars]
    grind
  have h₅ : escapePrefix ∉ ((operators.eraseDups.map fun c => (c, Role.operator)) ++
      [(groupStart, Role.groupStart)] ++ [(groupEnd, Role.groupEnd)] ++
      [(numberPrefix, Role.numberPrefix)] ++ [(macroPrefix, Role.macroPrefix)]).map (·.1) := by
    rw [List.append_assoc, List.append_assoc, List.append_assoc, hchars]
    grind
  simp only [ofSettings, Settings.ofConfig, readOperators_text, readSymbol_singleton _ h₁,
    readSymbol_singleton _ h₂, readSymbol_singleton _ h₃, readSymbol_singleton _ h₄,
    readSymbol_singleton _ h₅, hdistinct]

end Config

/-! ### What is wrong with settings -/

/-- What the check of a configuration finds: no single character was given for a role, or one that
has a role already. -/
inductive Settings.Fault.Invalid : Settings.Fault → Prop where
  | notCharacter (role : Role) (v : Value) : Invalid (.notCharacter role v)
  | taken (role holder : Role) : Invalid (.taken role holder)

namespace Config

theorem readOperators_error {v : Value} {vs : List Value} (helements : elements? v = some vs)
    {fault : Settings.Fault} (h : readOperators v = .error fault) : fault.Invalid := by
  simp only [readOperators, helements] at h
  rcases mapM_cases _ vs with ⟨_, hmap, -⟩ | ⟨_, u, _, e, -, -, hu, hmap⟩
  · rw [h] at hmap
    cases hmap
  · obtain rfl := Except.error.inj (h.symm.trans hmap)
    split at hu
    · cases hu
    · obtain rfl := Except.error.inj hu
      exact .notCharacter .operator u

theorem readSymbol_error {role : Role} {v : Value} {table : List (CodePoint × Role)}
    {fault : Settings.Fault} (h : readSymbol role v table = .error fault) : fault.Invalid := by
  rw [readSymbol] at h
  split at h
  · obtain rfl := Except.error.inj h
    exact .notCharacter role v
  · split at h
    · obtain rfl := Except.error.inj h
      exact .taken role _
    · cases h

/-- Settings whose operators have elements are wrong in a way that the check finds, if at all. -/
theorem ofSettings_error {settings : Settings} {vs : List Value}
    (helements : elements? settings.operators = some vs) {fault : Settings.Fault}
    (h : ofSettings settings = .error fault) : fault.Invalid := by
  rw [ofSettings] at h
  split at h
  · rename_i hfault
    obtain rfl := Except.error.inj h
    exact readOperators_error helements hfault
  -- the symbols are read one after the other, in the order of their roles
  dsimp only at h
  repeat
    split at h
    · rename_i hfault
      obtain rfl := Except.error.inj h
      exact readSymbol_error hfault
  cases h

end Config

/-! ### Fields -/

/-- The settings in which fields that all have known names set their values, one after the other. -/
theorem Settings.ofFields_known {fields : List (CodeText × Value)}
    (h : ∀ field ∈ fields, (Role.ofKey? field.1).isSome = true) :
    ∃ settings, ofFields fields = .ok settings ∧
      (settings.operators = Settings.standard.operators ∨
        ∃ field ∈ fields, Role.ofKey? field.1 = some .operator ∧
          settings.operators = field.2) := by
  rw [ofFields]
  generalize Settings.standard = start
  induction fields generalizing start with
  | nil => exact ⟨start, rfl, .inl rfl⟩
  | cons field fields ih =>
    obtain ⟨hfield, hfields⟩ := List.forall_mem_cons.1 h
    obtain ⟨role, hrole⟩ := Option.isSome_iff_exists.1 hfield
    obtain ⟨settings, hfold, hoperators⟩ := ih hfields (start.set field.2 role)
    refine ⟨settings, ?_, ?_⟩
    · rw [List.foldlM_cons]
      simp only [hrole]
      exact hfold
    · rcases hoperators with hstart | ⟨found, hmem, hfound⟩
      · by_cases hoperator : role = .operator
        · subst hoperator
          exact .inr ⟨field, List.mem_cons_self, hrole, hstart⟩
        · refine .inl (hstart.trans ?_)
          cases role with
          | operator => exact absurd rfl hoperator
          | _ => rfl
      · exact .inr ⟨found, List.mem_cons_of_mem _ hmem, hfound⟩

end Unroll
