import Unroll.Diagnostic
import Unroll.Fault
import Unroll.Json.Value

/-!
# Errors

The errors of the library as values: rejected programs, failures of the input and the output,
tokens nested too deeply, and invalid configurations.

* `Error` — an error, with its name, its text and the form in which it is shown;
* `Report.ofErrors` — gathers errors in a report, whose members then are its own and no reports;
* `ErrorTree` — reports of reports, to any depth, and what building them from the inside out
  gives.
-/

namespace Unroll

open Json (Value)

/-- An error. Errors other than rejections may carry any `details`; those of the input and the output
may have come from a fault. -/
inductive Error where
  | rejection (r : Rejection)
  | input (details : List Value) (cause : Option Fault)
  | output (details : List Value) (cause : Option Fault)
  | nesting (details : List Value)
  | config (details : List Value)
  | general (details : List Value)
deriving BEq, Repr

/-- The name of a kind of problem. -/
def Problem.name : Problem → String
  | unopened .. => "DelimiterUnopenedError"
  | unclosed .. => "DelimiterUnclosedError"
  | emptyGroup .. => "GroupEmptyError"
  | numberMissing .. => "NumberMissingError"
  | numberOverflow .. => "NumberOverflowError"
  | macroMissing .. => "MacroMissingError"
  | unspecified => "TokenizationError"

namespace Error

/-- The name of the kind of an error. -/
def name : Error → String
  | rejection (.diagnostic d) => d.problem.name
  | rejection (.report _) => "ErrorGroup"
  | input .. => "InputError"
  | output .. => "OutputError"
  | nesting .. => "NestingError"
  | config .. => "ConfigError"
  | general .. => "BfupError"

/-- The text of an error that has nothing but details: a single text as it stands, several
details in parentheses. -/
def detailsText : List Value → String
  | [] => ""
  | [.text s] => s.shown
  | [v] => v.display
  | vs => "(" ++ ", ".intercalate (Value.displayItems vs) ++ ")"

/-- The text of an error; a problem about which nothing is known has none. -/
def text? : Error → Option String
  | rejection r => r.text?
  | input _ (some fault) => some ("failed to read input: " ++ fault.message)
  | output _ (some fault) => some ("failed to write output: " ++ fault.message)
  | input details none | output details none | nesting details | config details
  | general details => some (detailsText details)

/-- The details with which an error is shown. -/
def details : Error → List Value
  | rejection (.diagnostic d) => [.integer d.position.line, .integer d.position.column]
  | rejection (.report _) => []
  | input details _ | output details _ | nesting details | config details | general details =>
    details

/-- The form in which an error is shown inside the text of another. -/
def display (e : Error) : String :=
  e.name ++ "(" ++ ", ".intercalate (Value.displayItems e.details) ++ ")"

/-- Tokens are nested too deeply to be read or to be written. -/
def tooDeep (activity : String) : Error :=
  nesting [.text s!"groups are nested too deeply to be {activity}"]

end Error

/-! ### Gathering errors -/

/-- Why errors make no report. -/
inductive Report.Fault where
  /-- an error has no place in a program -/
  | notRejection (e : Error)
  /-- there are none -/
  | empty
deriving BEq, Repr

/-- The description of a fault. -/
def Report.Fault.message : Report.Fault → String
  | notRejection e => s!"ErrorGroup can not contain {e.display}"
  | empty => "ErrorGroup must contain at least one error"

namespace Report

/-- The diagnostics of several errors, or the first that is no rejection. -/
def gather : List Error → Except Fault (List Diagnostic)
  | [] => .ok []
  | .rejection r :: es => (gather es).map (r.diagnostics ++ ·)
  | e :: _ => .error (.notRejection e)

/-- The report of several errors: the diagnostics of the reports among them are its own. -/
def ofErrors (es : List Error) : Except Fault Report :=
  match gather es with
  | .error e => .error e
  | .ok [] => .error .empty
  | .ok (d :: ds) => .ok ⟨d :: ds, List.cons_ne_nil d ds⟩

end Report

/-- Reports of reports, before any of them is built. -/
inductive ErrorTree where
  | leaf (e : Error)
  | node (children : List ErrorTree)

instance : Inhabited ErrorTree := ⟨.node []⟩

namespace ErrorTree

mutual
/-- Builds the error of a tree, the inner reports before the outer. -/
def build : ErrorTree → Except Report.Fault Error
  | leaf e => .ok e
  | node children =>
    match buildAll children with
    | .error e => .error e
    | .ok es => (Report.ofErrors es).map fun r => .rejection (.report r)
/-- Builds the errors of several trees from left to right. -/
def buildAll : List ErrorTree → Except Report.Fault (List Error)
  | [] => .ok []
  | t :: ts =>
    match build t with
    | .error e => .error e
    | .ok e => (buildAll ts).map (e :: ·)
end

end ErrorTree

end Unroll
