import Unroll.Config.Basic

/-!
# Roles and symbols

The table of a configuration, read in both directions.

* `Config.symbols` — the code points that have a role;
* `Config.roleOf_eq_some_iff` — the role of a code point is the only one that it is a symbol of.
-/

namespace Unroll

theorem Role.ofKey?_key (role : Role) : ofKey? role.key = some role := by
  cases role <;> decide

theorem Role.eq_of_key {role other : Role}
    (h : CodeText.ofString role.key = CodeText.ofString other.key) : role = other := by
  have hroles := congrArg ofKey? h
  rw [ofKey?_key, ofKey?_key] at hroles
  exact Option.some.inj hroles

namespace Config

/-- The code points that have a role. -/
def symbols (config : Config) : Role → CodeText
  | .operator => config.operators
  | .groupStart => [config.groupStart]
  | .groupEnd => [config.groupEnd]
  | .numberPrefix => [config.numberPrefix]
  | .macroPrefix => [config.macroPrefix]
  | .escapePrefix => [config.escapePrefix]

/-- A code point has a role if and only if it is one of its symbols. That no other role is in the way
is what the configuration guarantees. -/
theorem roleOf_eq_some_iff {config : Config} {c : CodePoint} {role : Role} :
    config.roleOf c = some role ↔ c ∈ config.symbols role := by
  have hnodup := config.nodup
  simp only [List.nodup_append, List.nodup_cons, List.mem_cons, List.not_mem_nil, or_false,
    not_or] at hnodup
  obtain ⟨-, ⟨⟨hse, hsn, hsm, hsx⟩, ⟨hen, hem, hex⟩, ⟨hnm, hnx⟩, hmx, -⟩, hop⟩ := hnodup
  cases role <;> simp only [roleOf, symbols, List.mem_singleton] <;> grind

variable {config : Config} {c : CodePoint}

theorem roleOf_eq_operator_iff : config.roleOf c = some .operator ↔ c ∈ config.operators :=
  roleOf_eq_some_iff

theorem roleOf_eq_groupStart_iff : config.roleOf c = some .groupStart ↔ config.groupStart = c := by
  rw [roleOf_eq_some_iff, symbols, List.mem_singleton, eq_comm]

theorem roleOf_eq_groupEnd_iff : config.roleOf c = some .groupEnd ↔ config.groupEnd = c := by
  rw [roleOf_eq_some_iff, symbols, List.mem_singleton, eq_comm]

theorem roleOf_eq_numberPrefix_iff :
    config.roleOf c = some .numberPrefix ↔ config.numberPrefix = c := by
  rw [roleOf_eq_some_iff, symbols, List.mem_singleton, eq_comm]

end Config

end Unroll
