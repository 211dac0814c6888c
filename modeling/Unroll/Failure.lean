import Unroll.Emit
import Unroll.Error
import Unroll.Lexer.Basic

/-!
# Failures

Everything that can end an activity of the library early, and how the failures of its parts are
seen from outside: faults of the input and the output are errors of the library if they were to be
expected, and so is nesting beyond the limit.
-/

namespace Unroll

/-- Why an activity ended early. -/
inductive Failure where
  /-- the width of a line is not positive -/
  | width (width : Int)
  /-- a fault, as it came -/
  | fault (f : Fault)
  /-- an error of the library -/
  | error (e : Error)
  /-- a value is no token -/
  | foreign (v : Json.Value)
deriving BEq, Repr

namespace Failure

/-- The description of a failure, if there is anything to say about it. -/
def text? : Failure → Option String
  | width n => some s!"Line width must be positive, got {n}"
  | fault f => some f.message
  | error e => e.text?
  | foreign v => some s!"Can not write {v.display}"

/-- A fault of the input is an error of the input, if it was to be expected. -/
def ofInput (f : Fault) : Failure := if f.isExpected then error (.input [] (some f)) else fault f

/-- A fault of the output is an error of the output, if it was to be expected. -/
def ofOutput (f : Fault) : Failure := if f.isExpected then error (.output [] (some f)) else fault f

/-- What a failure of the lexer means for reading a program. -/
def ofLexer : Lexer.Failure → Failure
  | .rejected r => error (.rejection r)
  | .input f => ofInput f
  | .tooDeep => error (.tooDeep "read")

/-- What a failure of a writer means for writing tokens. -/
def ofWriter : Writer.Failure → Failure
  | .output f => ofOutput f
  | .foreign v => foreign v
  | .tooDeep => error (.tooDeep "written")

/-- What a failure to write means. -/
def ofWrite : WriteFailure → Failure
  | .width n => width n
  | .writer e => ofWriter e

end Failure

end Unroll
