import Unroll.Text.CodePoint

/-!
# Roles

What a character of a program can mean to the lexer. A character has at most one role, and every
role but that of an operator belongs to exactly one character.
-/

namespace Unroll

/-- The role of a character. -/
inductive Role where
  | operator
  | groupStart
  | groupEnd
  | numberPrefix
  | macroPrefix
  | escapePrefix
deriving DecidableEq, Repr

namespace Role

/-- The roles that belong to exactly one character, in the order in which they are assigned. -/
def singles : List Role := [groupStart, groupEnd, numberPrefix, macroPrefix, escapePrefix]

/-- All roles, in the order in which they are assigned. -/
def all : List Role := operator :: singles

/-- The number of a role, counted from one. -/
def number : Role → Nat
  | operator => 1
  | groupStart => 2
  | groupEnd => 3
  | numberPrefix => 4
  | macroPrefix => 5
  | escapePrefix => 6

/-- The name of a role inside messages. -/
def description : Role → String
  | operator => "operator"
  | groupStart => "group start delimiter"
  | groupEnd => "group end delimiter"
  | numberPrefix => "number prefix"
  | macroPrefix => "macro prefix"
  | escapePrefix => "escape prefix"

/-- The name of the setting that gives a role to its characters. -/
def key : Role → String
  | operator => "operators"
  | groupStart => "group_start_delimiter"
  | groupEnd => "group_end_delimiter"
  | numberPrefix => "number_prefix"
  | macroPrefix => "macro_prefix"
  | escapePrefix => "escape_prefix"

/-- The role that the setting `key` gives. -/
def ofKey? (key : CodeText) : Option Role :=
  all.find? fun role => CodeText.ofString role.key = key

end Role

end Unroll
