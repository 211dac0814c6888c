import Unroll.Source
import Unroll.Text.LineEnd

/-!
# Bytes as text

Files hold bytes, and so does the standard input. Their text is decoded from UTF-8. The line ends of
a file are made one of a kind, those of the standard input are left as they are.

* `Stream.ofBytes`, `Stream.ofInput` — a file, or the standard input, that is read piece by piece;
* `decodeWhole` — a file that is read as a whole.

The two ways differ in what is known about bytes that are no text, and when.
-/

namespace Unroll

namespace Stream

/-- How many bytes are decoded at a time. -/
def pieceSize : Nat := 8192

/-- The part of the bytes that is decoded before the piece that is refused. What only the end of the
bytes settles is found when there are no more pieces. -/
def before (bytes : List UInt8) (refusal : Text.Utf8.Refusal) : List UInt8 :=
  let settledAt := refusal.settledAt bytes
  if settledAt < bytes.length then bytes.take (settledAt / pieceSize * pieceSize) else bytes

/-- The text of bytes that are read piece by piece; `prepare` is what is made of the characters, and
`settled` the part of them that is handed out without what follows. Bytes that are no text fail the
piece that they are in, before any of its characters is handed out, and their position counts from
the first byte that was not decoded with an earlier piece. What was read since the last full chunk
is lost. -/
def ofPieces (prepare settled : List Char → List Char) (bytes : List UInt8) : Stream :=
  match Text.Utf8.decode bytes with
  | (chars, none) => ⟨prepare chars, .quiet⟩
  | (_, some refusal) =>
    let known := (Text.Utf8.decode (before bytes refusal)).1
    let chars := prepare (settled known)
    let chunk := Source.chunkSize.toNat
    let position := refusal.position - (Text.Utf8.encode known).length
    ⟨chars.take (chars.length / chunk * chunk), .fault (.undecodable { refusal with position })⟩

/-- The text of a file. -/
def ofBytes (bytes : List UInt8) : Stream := ofPieces Text.unifyLineEnds Text.settledPart bytes

/-- The text of the standard input. -/
def ofInput (bytes : List UInt8) : Stream := ofPieces id id bytes

/-- A stream that is decoded ends without a fault, or with bytes that are no text. -/
theorem ofPieces_isExpected (prepare settled : List Char → List Char) (bytes : List UInt8) :
    (ofPieces prepare settled bytes).ending.isExpected = true := by
  rw [ofPieces]
  split <;> rfl

end Stream

/-- The text of a file that is read as a whole. -/
def decodeWhole (bytes : List UInt8) : Except Fault (List Char) :=
  match Text.Utf8.decode bytes with
  | (chars, none) => .ok (Text.unifyLineEnds chars)
  | (_, some refusal) => .error (.undecodable refusal)

end Unroll
