import Unroll.Config.Basic
import Unroll.Json.Value

/-!
# Settings

Users describe a configuration by six settings, which may be values of any kind.

* `Settings` — the six values;
* `Config.ofSettings` — the configuration that settings describe, or the first thing wrong with
  them, in the order operators, group start, group end, number, macro, escape. A symbol is first
  checked to be a single character, then to have no role yet.
-/

namespace Unroll

open Json (Value)

/-- What a user gives for each role: values of any kind. -/
structure Settings where
  operators : Value
  groupStart : Value
  groupEnd : Value
  numberPrefix : Value
  macroPrefix : Value
  escapePrefix : Value

/-- What can be wrong with settings. -/
inductive Settings.Fault where
  /-- there is no setting of this name -/
  | unknownKey (key : CodeText)
  /-- a setting has the name of the configuration itself -/
  | reservedKey (key : CodeText)
  /-- the operators are given by a value that has no elements -/
  | notElements (v : Value)
  /-- a single code point was wanted for the role -/
  | notCharacter (role : Role) (v : Value)
  /-- the code point given for `role` has the role `holder` -/
  | taken (role holder : Role)
deriving BEq, Repr

/-- The description of a fault. -/
def Settings.Fault.message : Settings.Fault → String
  | unknownKey key => s!"Config.__init__() got an unexpected keyword argument '{key.shown}'"
  | reservedKey key => s!"Config.__init__() got multiple values for argument '{key.shown}'"
  | notElements v => s!"'{v.kind}' object is not iterable"
  | notCharacter role v => s!"{role.description} must be a single character, got {v.display}."
  | taken role holder => s!"{role.description} cannot be {holder.description}."

namespace Settings

/-- The settings that describe a configuration. -/
def ofConfig (config : Config) : Settings where
  operators := .text config.operators
  groupStart := .text [config.groupStart]
  groupEnd := .text [config.groupEnd]
  numberPrefix := .text [config.numberPrefix]
  macroPrefix := .text [config.macroPrefix]
  escapePrefix := .text [config.escapePrefix]

/-- The settings used where nothing is given. -/
def standard : Settings := ofConfig .standard

/-- Sets the value for a role. -/
def set (settings : Settings) (v : Value) : Role → Settings
  | .operator => { settings with operators := v }
  | .groupStart => { settings with groupStart := v }
  | .groupEnd => { settings with groupEnd := v }
  | .numberPrefix => { settings with numberPrefix := v }
  | .macroPrefix => { settings with macroPrefix := v }
  | .escapePrefix => { settings with escapePrefix := v }

/-- The name that stands for the configuration itself. -/
def selfKey : CodeText := "self"

/-- The standard settings, changed by fields named for the roles; a later field of the same name
wins. -/
def ofFields (fields : List (CodeText × Value)) : Except Fault Settings :=
  fields.foldlM (fun settings (key, v) =>
    match Role.ofKey? key with
    | some role => .ok (settings.set v role)
    | none => .error (if key = selfKey then .reservedKey key else .unknownKey key)) standard

end Settings

theorem nodup_eraseDups {α : Type} [BEq α] [LawfulBEq α] (as : List α) : as.eraseDups.Nodup := by
  -- by the length, since what is left after its first element is a filtered list
  induction hlength : as.length using Nat.strongRecOn generalizing as with
  | ind n ih =>
    cases as with
    | nil => simp
    | cons a as =>
      have hle := List.length_filter_le (fun b => !b == a) as
      rw [List.length_cons] at hlength
      rw [List.eraseDups_cons, List.nodup_cons]
      exact ⟨by simp, ih _ (by omega) _ rfl⟩

namespace Config

/-! ### From settings to a configuration -/

/-- The code point that a value gives: a text of exactly one. -/
def char? : Value → Option CodePoint
  | .text [c] => some c
  | _ => none

/-- The elements of a value: the code points of a text, the items of a list, the names of the fields
of an object. -/
def elements? : Value → Option (List Value)
  | .text s => some (s.map fun c => .text [c])
  | .list items => some items
  | .object fields => some (fields.map fun field => .text field.1)
  | _ => none

/-- The operators that a value gives. -/
def readOperators (v : Value) : Except Settings.Fault CodeText :=
  match elements? v with
  | none => .error (.notElements v)
  | some vs => vs.mapM fun v =>
    match char? v with
    | some c => .ok c
    | none => .error (.notCharacter .operator v)

/-- The code point that `v` gives for `role`, which must not be one of those `table` gives a role
to. -/
def readSymbol (role : Role) (v : Value) (table : List (CodePoint × Role)) :
    Except Settings.Fault { c : CodePoint // c ∉ table.map (·.1) } :=
  match char? v with
  | none => .error (.notCharacter role v)
  | some c =>
    match h : table.find? (·.1 = c) with
    | some entry => .error (.taken role entry.2)
    | none => .ok ⟨c, by
        simp only [List.find?_eq_none, decide_eq_true_eq] at h
        simpa using fun role hmem => h (c, role) hmem rfl⟩

/-- The configuration that settings describe, or the first thing wrong with them. -/
def ofSettings (settings : Settings) : Except Settings.Fault Config :=
  match readOperators settings.operators with
  | .error e => .error e
  | .ok given =>
    let operators := given.eraseDups
    let table := operators.map fun c => (c, Role.operator)
    match readSymbol .groupStart settings.groupStart table with
    | .error e => .error e
    | .ok groupStart =>
      let table := table ++ [(groupStart.1, Role.groupStart)]
      match readSymbol .groupEnd settings.groupEnd table with
      | .error e => .error e
      | .ok groupEnd =>
        let table := table ++ [(groupEnd.1, Role.groupEnd)]
        match readSymbol .numberPrefix settings.numberPrefix table with
        | .error e => .error e
        | .ok numberPrefix =>
          let table := table ++ [(numberPrefix.1, Role.numberPrefix)]
          match readSymbol .macroPrefix settings.macroPrefix table with
          | .error e => .error e
          | .ok macroPrefix =>
            let table := table ++ [(macroPrefix.1, Role.macroPrefix)]
            match readSymbol .escapePrefix settings.escapePrefix table with
            | .error e => .error e
            | .ok escapePrefix => .ok {
                operators, groupStart, groupEnd, numberPrefix, macroPrefix, escapePrefix
                nodup := by
                  have h₀ := nodup_eraseDups given
                  have h₁ := groupStart.2
                  have h₂ := groupEnd.2
                  have h₃ := numberPrefix.2
                  have h₄ := macroPrefix.2
                  have h₅ := escapePrefix.2
                  grind }

end Config

end Unroll
