import Unroll.Position
import Unroll.Text.CodePoint

/-!
# Diagnostics

What is wrong with the text of a program, and where. A lexer goes on after a diagnostic, so that
all of them are found at once; those of one scope, a group or the whole program, are gathered in a
`Report`.
-/

namespace Unroll

/-- The largest number a program may contain. -/
def maxNumber : Nat := 9223372036854775807

/-- What is wrong at one place of a program. The texts are the symbols that the configuration uses
there. -/
inductive Problem where
  /-- a group is closed that was not opened -/
  | unopened (opening closing : CodeText)
  /-- a group is still open at the end of the program -/
  | unclosed (opening closing : CodeText)
  /-- a group has no tokens -/
  | emptyGroup (opening closing : CodeText)
  /-- no digit follows a number prefix -/
  | numberMissing (marker : CodeText)
  /-- a number is larger than `maximum` -/
  | numberOverflow (marker : CodeText) (digits : String) (maximum : Int)
  /-- no character and token follow a macro prefix -/
  | macroMissing (marker : CodeText)
  /-- nothing more is known -/
  | unspecified
deriving DecidableEq, Repr

/-- The description of a problem, if there is anything to say about it. -/
def Problem.text? : Problem → Option String
  | unopened opening closing =>
    some s!"'{closing.shown}' must have a preceding '{opening.shown}'"
  | unclosed _ closing => some s!"expected '{closing.shown}'"
  | emptyGroup opening closing => some s!"group is empty ('{opening.shown}{closing.shown}')"
  | numberMissing marker => some s!"number prefix '{marker.shown}' must be followed by number"
  | numberOverflow marker digits maximum =>
    some s!"number '{marker.shown}{digits}' is larger than {maximum}"
  | macroMissing marker =>
    some s!"macro prefix '{marker.shown}' must be followed by a character and a token"
  | unspecified => none

/-- A problem and its place. -/
structure Diagnostic where
  position : Position
  problem : Problem
deriving DecidableEq, Repr

/-- The line that shows a diagnostic, if there is anything to say about its problem. -/
def Diagnostic.text? (d : Diagnostic) : Option String :=
  d.problem.text?.map fun text => s!"{d.position}: {text}."

/-- The diagnostics of one scope: at least one. -/
structure Report where
  diagnostics : List Diagnostic
  nonempty : diagnostics ≠ []
deriving DecidableEq, Repr

/-- The lines that show a report, if there is something to say about every problem. -/
def Report.text? (r : Report) : Option String :=
  (r.diagnostics.mapM Diagnostic.text?).map "\n".intercalate

/-- The report of some diagnostics. -/
def Report.ofList? : List Diagnostic → Option Report
  | [] => none
  | d :: ds => some ⟨d :: ds, by simp⟩

/-- What a reader of a program rejects: a place, or a whole scope. -/
inductive Rejection where
  | diagnostic (d : Diagnostic)
  | report (r : Report)
deriving DecidableEq, Repr

namespace Rejection

/-- All diagnostics of a rejection, in order. -/
def diagnostics : Rejection → List Diagnostic
  | diagnostic d => [d]
  | report r => r.diagnostics

theorem diagnostics_ne_nil (r : Rejection) : r.diagnostics ≠ [] := by
  cases r with
  | diagnostic d => exact List.cons_ne_nil d []
  | report r => exact r.nonempty

/-- The lines that show a rejection, if there is something to say about every problem. -/
def text? : Rejection → Option String
  | diagnostic d => d.text?
  | report r => r.text?

end Rejection

end Unroll
