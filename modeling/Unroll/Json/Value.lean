import Unroll.Number.Shortest
import Unroll.Text.Quoted

/-!
# Values of unknown shape

What stands in a document, or is handed in as a setting, before anything is known about it: a tree
of plain data. The fields of an object keep their order.

* `Value.kind` — the name of a value's kind;
* `Value.display` — the form in which a value is shown inside a message;
* `setField` — a field that is given again keeps its place and takes the new value.
-/

namespace Unroll.Json

open Number Text

/-- A tree of plain data. -/
inductive Value where
  | null
  | boolean (b : Bool)
  | integer (n : Int)
  | real (x : Binary64)
  | text (s : CodeText)
  | list (items : List Value)
  | object (fields : List (CodeText × Value))
deriving BEq, Repr

namespace Value

/-- The name of the kind of a value. -/
def kind : Value → String
  | null => "NoneType"
  | boolean _ => "bool"
  | integer _ => "int"
  | real _ => "float"
  | text _ => "str"
  | list _ => "list"
  | object _ => "dict"

mutual
/-- The form in which a value is shown. -/
def display : Value → String
  | null => "None"
  | boolean b => if b then "True" else "False"
  | integer n => toString n
  | real x => x.text
  | text s => quoted s
  | list items => "[" ++ ", ".intercalate (displayItems items) ++ "]"
  | object fields => "\x7b" ++ ", ".intercalate (displayFields fields) ++ "\x7d"
/-- The shown forms of the items of a list. -/
def displayItems : List Value → List String
  | [] => []
  | v :: vs => v.display :: displayItems vs
/-- The shown forms of the fields of an object. -/
def displayFields : List (CodeText × Value) → List String
  | [] => []
  | (name, v) :: rest => (quoted name ++ ": " ++ v.display) :: displayFields rest
end

end Value

/-- Gives the field `name` the value `v`: in its place if there is such a field, else at the
end. -/
def setField (name : CodeText) (v : Value) : List (CodeText × Value) → List (CodeText × Value)
  | [] => [(name, v)]
  | field :: rest => if field.1 = name then (name, v) :: rest else field :: setField name v rest

/-- The value of the field `name`. -/
def field? (fields : List (CodeText × Value)) (name : CodeText) : Option Value :=
  (fields.find? fun field => field.1 = name).map (·.2)

end Unroll.Json
