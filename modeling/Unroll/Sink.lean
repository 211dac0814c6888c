import Unroll.Fault

/-!
# Sinks

A sink takes texts one after the other and may refuse any of them. It remembers every call made on
it, refused or not, so that what was tried can be told from what was received.

* `Sink.write` — one call;
* `Sink.output` — what was received;
* `Sink.unlimited`, `Sink.failingAfter`, `Sink.closed`, `Sink.encoding` — kinds of sinks.
-/

namespace Unroll

/-- A place where texts are written. -/
structure Sink where
  /-- the fault with which a call is met, by the number of calls before it and its text -/
  refuses : Nat → String → Option Fault
  /-- the texts of the calls made, the latest first -/
  calls : List String
  /-- the number of calls made -/
  count : Nat
  /-- the texts received, the latest first -/
  received : List String
  counted : count = calls.length

namespace Sink

/-- A fresh sink. -/
def ofRule (refuses : Nat → String → Option Fault) : Sink where
  refuses := refuses
  calls := []
  count := 0
  received := []
  counted := rfl

/-- A sink that takes everything. -/
def unlimited : Sink := ofRule fun _ _ => none

/-- A sink that takes `after` texts and refuses all later ones. -/
def failingAfter (after : Nat) (fault : Fault) : Sink :=
  ofRule fun count _ => if count < after then none else some fault

/-- A sink that takes nothing any more. -/
def closed : Sink := ofRule fun _ _ => some (.improper "I/O operation on closed file")

/-- A sink that takes the texts of a character set. -/
def encoding (charset : Text.Charset) : Sink :=
  ofRule fun _ text => (charset.refusal? text.toList).map .unencodable

/-- Writes a text. -/
def write (sink : Sink) (text : String) : Except Fault Unit × Sink :=
  let after : Sink :=
    { sink with calls := text :: sink.calls, count := sink.count + 1,
                counted := by simp [sink.counted] }
  match sink.refuses sink.count text with
  | some fault => (.error fault, after)
  | none => (.ok (), { after with received := text :: sink.received })

/-- What was received, as one text. -/
def output (sink : Sink) : String := String.join sink.received.reverse

end Sink

end Unroll
