import Unroll.Sink
import Unroll.Token

/-!
# Writing tokens

Operators are written to a sink one at a time. A number multiplies the token after it, a group is
written as a whole as often as it is multiplied, and the output may be broken into lines of equal
width.

* `LineCounter` — how long the current line is;
* `Writer` — a sink with the counter that all writing to it shares;
* `writeTokens` — writes tokens; a number multiplies only what follows it in the same group;
* `writeAll` — writes tokens to a fresh line.
-/

namespace Unroll

/-- The length of the current line of an output whose lines are `width` long. -/
structure LineCounter where
  width : Nat
  length : Nat
deriving DecidableEq, Repr

/-- A counter for lines of the given width, which has to be positive. -/
def LineCounter.ofWidth? (width : Int) : Option LineCounter :=
  if width < 1 then none else some ⟨width.toNat, 0⟩

/-- A sink, and the counter of its lines if there is one. -/
structure Writer where
  sink : Sink
  counter : Option LineCounter

/-- Why tokens are not written to their end. -/
inductive Writer.Failure where
  /-- the sink refused a text -/
  | output (fault : Fault)
  /-- a value is no token -/
  | foreign (v : Json.Value)
  /-- groups are nested too deeply -/
  | tooDeep
deriving BEq, Repr

namespace Writer

/-- Writes a text, which is not counted. -/
def put (w : Writer) (text : String) : Except Failure Unit × Writer :=
  match w.sink.write text with
  | (.ok (), sink) => (.ok (), { w with sink })
  | (.error fault, sink) => (.error (.output fault), { w with sink })

/-- Counts one operator, and ends the line when it has its full width. If the end of the line is
refused, the line keeps its length. -/
def advance (w : Writer) (counter : LineCounter) : Except Failure Unit × Writer :=
  let counter := { counter with length := counter.length + 1 }
  let w := { w with counter := some counter }
  if counter.length = counter.width then
    match w.put "\n" with
    | (.ok (), w) => (.ok (), { w with counter := some { counter with length := 0 } })
    | (.error e, w) => (.error e, w)
  else (.ok (), w)

/-- Writes an operator and counts it. -/
def putOperator (w : Writer) (symbol : String) : Except Failure Unit × Writer :=
  match w.put symbol with
  | (.error e, w) => (.error e, w)
  | (.ok (), w) =>
    match w.counter with
    | none => (.ok (), w)
    | some counter => w.advance counter

/-- Does something `times` times, unless it fails before. -/
def repeated (act : Writer → Except Failure Unit × Writer) :
    (times : Nat) → Writer → Except Failure Unit × Writer
  | 0, w => (.ok (), w)
  | times + 1, w =>
    match act w with
    | (.ok (), w) => repeated act times w
    | (.error e, w) => (.error e, w)

end Writer

mutual
/-- Writes one token `times` times. Groups may be nested `depth` deep. -/
def writeToken : Token → (depth times : Nat) → Writer → Except Writer.Failure Unit × Writer
  | .number _, _, _, w => (.ok (), w)
  | .operator symbol, _, times, w => Writer.repeated (·.putOperator symbol) times w
  | .group tokens, depth, times, w =>
    match depth with
    | 0 => Writer.repeated (fun w => (.error .tooDeep, w)) times w
    | depth + 1 => Writer.repeated (fun w => writeTokens tokens depth 1 w) times w
  | .foreign v, _, _, w => (.error (.foreign v), w)
/-- Writes tokens in order, the first of them as often as `multiplier` says. A number takes the
place of the multiplier, anything else resets it to one. -/
def writeTokens : List Token → (depth : Nat) → (multiplier : Int) → Writer →
    Except Writer.Failure Unit × Writer
  | [], _, _, w => (.ok (), w)
  | .number n :: tokens, depth, _, w => writeTokens tokens depth n w
  | t :: tokens, depth, multiplier, w =>
    match writeToken t depth multiplier.toNat w with
    | (.ok (), w) => writeTokens tokens depth 1 w
    | (.error e, w) => (.error e, w)
end

/-- How deeply groups may be nested when they are written, where nothing else is wanted. -/
def writingLimit : Nat := 1000

/-- Why tokens are not written. -/
inductive WriteFailure where
  /-- the width of a line is not positive -/
  | width (width : Int)
  | writer (e : Writer.Failure)
deriving BEq, Repr

/-- Writes tokens to a sink, in lines of the given width if there is one. -/
def writeAll (depth : Nat) (tokens : List Token) (lineWidth : Option Int) (sink : Sink) :
    Except WriteFailure Unit × Sink :=
  let run (counter : Option LineCounter) :=
    let (result, w) := writeTokens tokens depth 1 ⟨sink, counter⟩
    (result.mapError .writer, w.sink)
  match lineWidth with
  | none => run none
  | some width =>
    match LineCounter.ofWidth? width with
    | none => (.error (.width width), sink)
    | some counter => run (some counter)

end Unroll
