import Unroll.Config.Settings
import Unroll.Json.Reader

/-!
# Configuration documents

A configuration may be given by a JSON object whose fields are named for the roles. A field that
is missing leaves the standard setting; a field of another name is ignored with a warning.

* `knownFields`, `warnings` — which fields count, and which are warned about;
* `Config.readDocument` — the configuration of a document, with the warnings. They are given also
  when the document turns out to describe no configuration.
-/

namespace Unroll

open Json (Value)

namespace Config

/-- Why a document describes no configuration. -/
inductive DocumentFault where
  /-- it is malformed, at the given line and column -/
  | malformed (complaint : Json.Complaint) (line column : Nat)
  /-- it has a whole number of too many digits -/
  | oversized (digits : Nat)
  /-- its lists and objects are nested too deeply -/
  | tooDeep
  /-- it is no object -/
  | notObject (kind : String)
  /-- the operators are not given by a text -/
  | operatorsNotText (v : Value)
  /-- its settings contradict each other -/
  | invalid (fault : Settings.Fault)
deriving BEq, Repr

/-- The description of a fault. -/
def DocumentFault.message : DocumentFault → String
  | malformed complaint line column => s!"[{line}:{column}]: {complaint.message}."
  | oversized digits =>
    s!"Exceeds the limit ({Text.maxNumeralDigits} digits) for integer string conversion: " ++
    s!"value has {digits} digits; use sys.set_int_max_str_digits() to increase the limit"
  | tooDeep => "maximum recursion depth exceeded while decoding a JSON document"
  | notObject kind => s!"Expected config to be a json object, got {kind}."
  | operatorsNotText v => s!"Expected operators to be a string, got {v.display}."
  | invalid fault => fault.message

/-- The fields that are named for a role. -/
def knownFields (fields : List (CodeText × Value)) : List (CodeText × Value) :=
  fields.filter fun field => (Role.ofKey? field.1).isSome

/-- One warning for each field that is ignored. -/
def warnings (fields : List (CodeText × Value)) : List String :=
  (fields.filter fun field => (Role.ofKey? field.1).isNone).map fun field =>
    "Ignoring unknown config key " ++ Text.quoted field.1

/-- The operators of a document, if given, must be a text. -/
def checkOperators (fields : List (CodeText × Value)) : Except DocumentFault Unit :=
  match Json.field? fields (Role.key .operator) with
  | some (.text _) | none => .ok ()
  | some v => .error (.operatorsNotText v)

/-- The configuration that the fields of an object describe. -/
def ofFields (fields : List (CodeText × Value)) : Except DocumentFault Config := do
  checkOperators fields
  (Settings.ofFields (knownFields fields) >>= ofSettings).mapError .invalid

/-- The warnings about a document, and its configuration. Lists and objects may nest `depth`
deep. -/
def readDocument (depth : Nat) (document : List Char) :
    List String × Except DocumentFault Config :=
  match Json.read depth document with
  | .error (.malformed complaint index) =>
    let (line, column) := Json.place document index
    ([], .error (.malformed complaint line column))
  | .error (.oversized digits) => ([], .error (.oversized digits))
  | .error .tooDeep => ([], .error .tooDeep)
  | .ok (.object fields) => (warnings fields, ofFields fields)
  | .ok v => ([], .error (.notObject v.kind))

end Config

end Unroll
