import Unroll.Fault

/-!
# Sources

Characters come to the lexer one at a time, while streams hand them out in chunks.

* `Stream` — the characters a stream has left, and how it ends;
* `Source` — a stream that is read chunk by chunk, with the part of the last chunk not used yet;
* `Source.pull` — the next character;
* `Source.brokenOff` — a source that was left in the middle of a pull.

A source that has met the end of its stream or a fault is finished: it gives nothing more.
-/

namespace Unroll

/-- How a stream ends. -/
inductive Ending where
  /-- after its last character there are no more -/
  | quiet
  /-- a read after its last character fails -/
  | fault (f : Fault)
deriving DecidableEq, Repr

/-- Whether a stream ends without a fault, or with one that is expected of streams. -/
def Ending.isExpected : Ending → Bool
  | quiet => true
  | fault f => f.isExpected

/-- A stream of characters. -/
structure Stream where
  chars : List Char
  ending : Ending := .quiet
deriving DecidableEq, Repr

namespace Stream

/-- A text ends without a fault. -/
theorem isExpected_of_text (text : List Char) :
    (⟨text, .quiet⟩ : Stream).ending.isExpected = true := rfl

/-- Reads at most `size` characters, or all of them if `size` is negative. Nothing is read at the
end, and a fault comes only after the last character. -/
def read (stream : Stream) (size : Int) : Except Fault (List Char) × Stream :=
  if size = 0 then (.ok [], stream)
  else match stream.chars, stream.ending with
    | [], .quiet => (.ok [], stream)
    | [], .fault f => (.error f, stream)
    | chars, _ =>
      if size < 0 then (.ok chars, { stream with chars := [] })
      else (.ok (chars.take size.toNat), { stream with chars := chars.drop size.toNat })

end Stream

/-- A supply of characters. -/
structure Source where
  /-- the characters of the last chunk that are left -/
  buffer : List Char
  stream : Stream
  /-- how much is read at a time -/
  chunk : Int
  /-- how often the stream has been read -/
  reads : Nat
  /-- whether the end or a fault has been met -/
  finished : Bool
deriving DecidableEq, Repr

namespace Source

/-- How much is read at a time where nothing else is wanted. -/
def chunkSize : Int := 4096

/-- A stream that is read chunk by chunk. -/
def ofStream (stream : Stream) (chunk : Int) : Source where
  buffer := []
  stream := stream
  chunk := chunk
  reads := 0
  finished := false

/-- A text that is at hand as a whole, with what happens at its end. -/
def ofText (text : List Char) (ending : Ending) : Source where
  buffer := text
  stream := ⟨[], ending⟩
  chunk := 1
  reads := 0
  finished := false

/-- The next character; none at the end. -/
def pull (source : Source) : Except Fault (Option Char) × Source :=
  match source.buffer with
  | c :: rest => (.ok (some c), { source with buffer := rest })
  | [] =>
    if source.finished then (.ok none, source)
    else match source.stream.read source.chunk with
      | (.ok (c :: rest), stream) =>
        (.ok (some c), { source with buffer := rest, stream, reads := source.reads + 1 })
      | (.ok [], stream) =>
        (.ok none, { source with stream, reads := source.reads + 1, finished := true })
      | (.error f, stream) =>
        (.error f, { source with stream, reads := source.reads + 1, finished := true })

/-- The source after it was broken off: the rest of the chunk is lost, and the stream is not touched
any more. -/
def brokenOff (source : Source) : Source := { source with buffer := [], finished := true }

/-- No more characters are left than this. -/
def size (source : Source) : Nat := source.buffer.length + source.stream.chars.length

/-- Pulls characters until there are none, behind those of `done`, which stand in reverse. -/
def drainOnto (done : List Char) : (steps : Nat) → Source → Except Fault (List Char) × Source
  | 0, source => (.ok done.reverse, source)
  | steps + 1, source =>
    match source.pull with
    | (.ok (some c), source) => drainOnto (c :: done) steps source
    | (.ok none, source) => (.ok done.reverse, source)
    | (.error f, source) => (.error f, source)

/-- All characters. -/
def drain (source : Source) : Except Fault (List Char) × Source :=
  drainOnto [] (source.size + 1) source

end Source

end Unroll
