import Unroll.Lexer.Program

/-!
# Sessions

A lexer need not be read from its start to its end: its readers may be called one by one, in any
order, and also after one of them has failed.

* `Lexer.Operation`, `Lexer.Answer` — what may be asked of a lexer, and what it answers;
* `Lexer.Session` — a lexer with the walks that are under way;
* `Lexer.Session.perform`, `Lexer.Session.run` — one operation, and one after the other;
* `Lexer.Session.runResuming` — the same over a source that a nesting error may end.
-/

namespace Unroll

namespace Lexer

/-- What may be asked of a lexer. -/
inductive Operation where
  | peek
  | next
  | readNumber
  | readItem
  | readDefinition
  | readGroup
  | readToken
  | readAll
  | readList
  /-- one step of the walk with this number -/
  | walk (number : Nat)
deriving DecidableEq, Repr

/-- What an operation comes to. -/
inductive Answer where
  | character (result : Except Fault (Option Char))
  | part (result : Except Failure Token)
  | item (result : Except Failure Item)
  | definition (result : Except Failure Definition)
  | token (result : Except Failure (Option Token))
  | tokens (result : Except Failure (List Token))

/-- Why an operation has no result, if it has none. -/
def Answer.failure? : Answer → Option Failure
  | character (.error f) => some (.input f)
  | part (.error e) | item (.error e) | definition (.error e) | token (.error e)
  | tokens (.error e) => some e
  | _ => none

/-- A lexer and the walks through its tokens. A walk that was not asked for a token yet is one that
may be begun at any time. -/
structure Session where
  lexer : Lexer
  walks : Nat → Iteration

namespace Session

/-- A fresh lexer. -/
def start (source : Source) : Session := ⟨ofSource source, fun _ => .running⟩

/-- One operation. -/
def perform (config : Config) (depth : Nat) (s : Session) : Operation → Answer × Session
  | .peek => (.character s.lexer.peek.1, { s with lexer := s.lexer.peek.2 })
  | .next => (.character s.lexer.next.1, { s with lexer := s.lexer.next.2 })
  | .readNumber =>
    let (result, lexer) := s.lexer.readNumber config
    (.part result, { s with lexer })
  | .readItem =>
    let (result, lexer) := s.lexer.readItem config depth
    (.item result, { s with lexer })
  | .readDefinition =>
    let (result, lexer) := s.lexer.readDefinition config depth
    (.definition result, { s with lexer })
  | .readGroup =>
    let (result, lexer) := s.lexer.readGroup config depth
    (.part result, { s with lexer })
  | .readToken =>
    let (result, lexer) := s.lexer.readToken config depth
    (.token result, { s with lexer })
  | .readAll =>
    let (result, lexer) := s.lexer.readAll config depth
    (.tokens result, { s with lexer })
  | .readList =>
    let (result, lexer) := s.lexer.readList config depth
    (.tokens result, { s with lexer })
  | .walk number =>
    let (result, walk, lexer) := (s.walks number).next config depth s.lexer
    (.token result, ⟨lexer, fun i => if i = number then walk else s.walks i⟩)

/-- One operation after the other, whatever they come to. -/
def run (config : Config) (depth : Nat) : List Operation → Session → List Answer × Session
  | [], s => ([], s)
  | op :: ops, s =>
    let (answer, s) := s.perform config depth op
    let (answers, s) := run config depth ops s
    (answer :: answers, s)

/-! ### Sources that are resumed

A stream is read by a computation of its own, which is resumed for each character. The limit on
calls inside of each other may be met in it as well as around it, and then it is broken off: no
character of the stream is handed out any more, not even of the chunk that was read. Where the limit
is met is not known. -/

/-- One operation. A nesting error is met within the source, or around it. -/
def performResuming (config : Config) (depth : Nat) (within : Bool) (s : Session)
    (op : Operation) : Answer × Session :=
  let done := s.perform config depth op
  if within && done.1.failure? == some .tooDeep then
    (done.1, { done.2 with lexer := { done.2.lexer with source := done.2.lexer.source.brokenOff } })
  else done

/-- One operation after the other, whatever they come to. Of each it is given where a nesting error
is met. -/
def runResuming (config : Config) (depth : Nat) (within : Nat → Bool) :
    List Operation → Session → List Answer × Session
  | [], s => ([], s)
  | op :: ops, s =>
    let (answer, s) := s.performResuming config depth (within 0) op
    let (answers, s) := runResuming config depth (fun n => within (n + 1)) ops s
    (answer :: answers, s)

end Session

end Lexer

end Unroll
