import Unroll.Role
import Unroll.Text.Quoted

/-!
# Configurations

A configuration gives code points their roles: any number of operators, and one code point for each
of the other five roles. None has two roles. Programs have characters only, so a role that half of
a surrogate pair was given for never shows in them.

* `Config` — the assignment, with the proof that the code points are different;
* `Config.roleOf`, `Config.charFor?` — the assignment read in both directions;
* `Config.sameRoles` — whether two configurations mean the same;
* `Config.standard` — the configuration used where nothing else is given.
-/

namespace Unroll

/-- An assignment of roles to code points. -/
structure Config where
  operators : CodeText
  groupStart : CodePoint
  groupEnd : CodePoint
  numberPrefix : CodePoint
  macroPrefix : CodePoint
  escapePrefix : CodePoint
  /-- no code point has two roles, and no operator stands twice -/
  nodup : (operators ++ [groupStart, groupEnd, numberPrefix, macroPrefix, escapePrefix]).Nodup
deriving DecidableEq, Repr

namespace Config

/-! ### The two directions of the table -/

/-- The role of a code point, if it has one. -/
def roleOf (config : Config) (c : CodePoint) : Option Role :=
  if c ∈ config.operators then some .operator
  else if c = config.groupStart then some .groupStart
  else if c = config.groupEnd then some .groupEnd
  else if c = config.numberPrefix then some .numberPrefix
  else if c = config.macroPrefix then some .macroPrefix
  else if c = config.escapePrefix then some .escapePrefix
  else none

/-- The code point that has a role: the first operator for the operators, of which there may be
none. -/
def charFor? (config : Config) : Role → Option CodePoint
  | .operator => config.operators.head?
  | .groupStart => some config.groupStart
  | .groupEnd => some config.groupEnd
  | .numberPrefix => some config.numberPrefix
  | .macroPrefix => some config.macroPrefix
  | .escapePrefix => some config.escapePrefix

/-- The settings that describe a configuration, each with its name. -/
def entries (config : Config) : List (String × CodeText) :=
  [(Role.key .operator, config.operators),
   (Role.key .groupStart, [config.groupStart]),
   (Role.key .groupEnd, [config.groupEnd]),
   (Role.key .numberPrefix, [config.numberPrefix]),
   (Role.key .macroPrefix, [config.macroPrefix]),
   (Role.key .escapePrefix, [config.escapePrefix])]

/-- The form in which a configuration is shown. -/
def display (config : Config) : String :=
  let arguments := config.entries.map fun (key, text) => key ++ "=" ++ Text.quoted text
  "Config(" ++ ", ".intercalate arguments ++ ")"

/-- Whether two configurations give every code point the same role. The order of the operators does
not matter. -/
def sameRoles (c d : Config) : Bool :=
  c.operators.all (d.operators.contains ·) && d.operators.all (c.operators.contains ·) &&
  c.groupStart == d.groupStart && c.groupEnd == d.groupEnd &&
  c.numberPrefix == d.numberPrefix && c.macroPrefix == d.macroPrefix &&
  c.escapePrefix == d.escapePrefix

/-- The eight operators and the five symbols that are used where nothing else is given. -/
def standard : Config where
  operators := ['+', '-', '<', '>', '[', ']', '.', ',']
  groupStart := '('
  groupEnd := ')'
  numberPrefix := '#'
  macroPrefix := '$'
  escapePrefix := '\\'
  nodup := by decide

end Config

instance : Inhabited Config := ⟨Config.standard⟩

end Unroll
