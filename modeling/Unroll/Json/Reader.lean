import Unroll.Json.Value
import Unroll.Text.Numeral

/-!
# Reading JSON

A reader of JSON documents that also takes the three numbers `NaN`, `Infinity` and `-Infinity`.
It says at which character a malformed document goes wrong.

* `Cursor` — a place in the document: what is left, and how much came before;
* `Complaint`, `Failure` — what can be wrong;
* `readText`, `readNumber?`, `readValue` — the readers of the parts;
* `read` — the value of a whole document.

Lists and objects nest at most as deeply as the caller allows.
-/

namespace Unroll.Json

open Number

/-- A place in a document: the characters left, and the number of those before them. -/
structure Cursor where
  rest : List Char
  index : Nat
deriving Repr

namespace Cursor

/-- The place after the `n` characters in front of `rest`. -/
def past (cursor : Cursor) (n : Nat) (rest : List Char) : Cursor := ⟨rest, cursor.index + n⟩

/-- The four characters that may stand between the parts of a document. -/
def isBlank (c : Char) : Bool := c = ' ' || c = '\t' || c = '\n' || c = '\r'

/-- The place after the blanks. -/
def skipBlanks (cursor : Cursor) : Cursor :=
  cursor.past (cursor.rest.takeWhile isBlank).length (cursor.rest.dropWhile isBlank)

end Cursor

/-- What is wrong with a malformed document. -/
inductive Complaint where
  | byteOrderMark
  | expectedValue
  | expectedName
  | expectedColon
  | expectedComma
  | extraData
  | unterminatedText
  | controlCharacter
  | unknownEscape
  | malformedEscape
deriving DecidableEq, Repr

/-- The wording of a complaint. -/
def Complaint.message : Complaint → String
  | byteOrderMark => "Unexpected UTF-8 BOM (decode using utf-8-sig)"
  | expectedValue => "Expecting value"
  | expectedName => "Expecting property name enclosed in double quotes"
  | expectedColon => "Expecting ':' delimiter"
  | expectedComma => "Expecting ',' delimiter"
  | extraData => "Extra data"
  | unterminatedText => "Unterminated string starting at"
  | controlCharacter => "Invalid control character at"
  | unknownEscape => "Invalid \\escape"
  | malformedEscape => "Invalid \\uXXXX escape"

/-- Why a document has no value. -/
inductive Failure where
  /-- the document is malformed at the character numbered `index` -/
  | malformed (complaint : Complaint) (index : Nat)
  /-- a whole number has too many digits -/
  | oversized (digits : Nat)
  /-- lists and objects are nested too deeply -/
  | tooDeep
deriving DecidableEq, Repr

/-- The value of a hexadecimal digit. -/
def hexDigit? (c : Char) : Option Nat :=
  if c.isDigit then some (c.toNat - '0'.toNat)
  else if 'a' ≤ c && c ≤ 'f' then some (c.toNat - 'a'.toNat + 10)
  else if 'A' ≤ c && c ≤ 'F' then some (c.toNat - 'A'.toNat + 10)
  else none

/-- The number of four hexadecimal digits. -/
def hexNumber? (a b c d : Char) : Option Nat := do
  return 4096 * (← hexDigit? a) + 256 * (← hexDigit? b) + 16 * (← hexDigit? c) + (← hexDigit? d)

/-- Whether a number is the first half of a surrogate pair. -/
def isHighSurrogate (n : Nat) : Bool := 0xD800 ≤ n && n ≤ 0xDBFF

/-- Whether a number is the second half of a surrogate pair. -/
def isLowSurrogate (n : Nat) : Bool := 0xDC00 ≤ n && n ≤ 0xDFFF

/-- The character that a surrogate pair stands for. -/
def joinSurrogates (high low : Nat) : Char :=
  Char.ofNat (0x10000 + 1024 * (high - 0xD800) + (low - 0xDC00))

/-- The character that a short escape stands for. -/
def shortEscape? : Char → Option Char
  | '\x22' => some '\x22'
  | '\\' => some '\\'
  | '/' => some '/'
  | 'b' => some '\x08'
  | 'f' => some '\x0c'
  | 'n' => some '\n'
  | 'r' => some '\r'
  | 't' => some '\t'
  | _ => none

/-- The second half of a surrogate pair at the front of `rest`, after `\u` and with a character
behind it: its number and what follows, or `none` when its digits are malformed. -/
def secondHalf? : (rest : List Char) → Option (Option (Nat × List Char))
  | '\\' :: 'u' :: a :: b :: c :: d :: e :: rest =>
    some ((hexNumber? a b c d).map fun n => (n, e :: rest))
  | _ => none

/-- Reads a text up to its closing quote. `opening` is the index of the opening quote, `done` the
code points read so far in reverse, `index` that of the first character left. Only a first half of
a surrogate pair with a second half right behind it makes a character; any other half stands for
itself. Every step takes at least one character, so as many steps as there are characters suffice. -/
def readText (opening : Nat) : (steps : Nat) → (done : CodeText) → (index : Nat) →
    (rest : List Char) → Except Failure (CodeText × Cursor)
  | 0, _, _, _ => .error (.malformed .unterminatedText opening)
  | _, _, _, [] => .error (.malformed .unterminatedText opening)
  | _, done, index, '\x22' :: rest => .ok (done.reverse, ⟨rest, index + 1⟩)
  | _, _, _, ['\\'] => .error (.malformed .unterminatedText opening)
  | steps + 1, done, index, '\\' :: 'u' :: rest =>
    match rest with
    | a :: b :: c :: d :: e :: rest =>
      match hexNumber? a b c d with
      | none => .error (.malformed .malformedEscape (index + 1))
      | some n =>
        if isHighSurrogate n then
          match secondHalf? (e :: rest) with
          | some none => .error (.malformed .malformedEscape (index + 7))
          | some (some (m, after)) =>
            if isLowSurrogate m then
              readText opening steps (.char (joinSurrogates n m) :: done) (index + 12) after
            else readText opening steps (.ofNumber n :: done) (index + 6) (e :: rest)
          | none => readText opening steps (.ofNumber n :: done) (index + 6) (e :: rest)
        else readText opening steps (.ofNumber n :: done) (index + 6) (e :: rest)
    | _ => .error (.malformed .malformedEscape (index + 1))
  | steps + 1, done, index, '\\' :: c :: rest =>
    match shortEscape? c with
    | none => .error (.malformed .unknownEscape index)
    | some c => readText opening steps (.char c :: done) (index + 2) rest
  | steps + 1, done, index, c :: rest =>
    if c.toNat ≤ 0x1F then .error (.malformed .controlCharacter index)
    else readText opening steps (.char c :: done) (index + 1) rest

/-- The number of decimal digits. -/
def digitsValue (digits : List Char) : Nat :=
  Text.ofDigits (digits.map fun c => c.toNat - '0'.toNat)

/-- The digits in front of `rest`. -/
def takeDigits (rest : List Char) : List Char := rest.takeWhile Char.isDigit

/-- The digits of a whole number at the front of `rest`: a lone zero, or a run of digits that
begins with another digit. -/
def wholeDigits : (rest : List Char) → List Char
  | '0' :: _ => ['0']
  | rest => takeDigits rest

/-- The digits after a decimal point at the front of `rest`; none without a digit there. -/
def fractionDigits : (rest : List Char) → List Char
  | '.' :: rest => takeDigits rest
  | _ => []

/-- The exponent at the front of `rest`, and how many characters it takes. -/
def exponent? : (rest : List Char) → Option (Int × Nat)
  | e :: rest =>
    if e = 'e' || e = 'E' then
      let (negative, signLength, rest) := match rest with
        | '-' :: rest => (true, 1, rest)
        | '+' :: rest => (false, 1, rest)
        | rest => (false, 0, rest)
      let digits := takeDigits rest
      if digits.isEmpty then none
      else
        let n : Int := digitsValue digits
        some (if negative then -n else n, 1 + signLength + digits.length)
    else none
  | [] => none

/-- Reads the longest number at the front of what is left; `none` if no number begins there. -/
def readNumber? (cursor : Cursor) : Option (Except Failure (Value × Cursor)) :=
  let (negative, start) := match cursor.rest with
    | '-' :: rest => (true, cursor.past 1 rest)
    | _ => (false, cursor)
  let whole := wholeDigits start.rest
  if whole.isEmpty then none
  else
    let start := start.past whole.length (start.rest.drop whole.length)
    let fraction := fractionDigits start.rest
    let fractionLength := if fraction.isEmpty then 0 else fraction.length + 1
    let start := start.past fractionLength (start.rest.drop fractionLength)
    let exponent := exponent? start.rest
    let exponentLength := (exponent.map (·.2)).getD 0
    let after := start.past exponentLength (start.rest.drop exponentLength)
    if fraction.isEmpty && exponent.isNone then
      if Text.maxNumeralDigits < whole.length then some (.error (.oversized whole.length))
      else
        let n : Int := digitsValue whole
        some (.ok (.integer (if negative then -n else n), after))
    else
      let place := (exponent.map (·.1)).getD 0 - fraction.length
      some (.ok (.real (.ofDecimal negative (digitsValue (whole ++ fraction)) place), after))

/-- The words that stand for a value. -/
def words : List (String × Value) :=
  [("null", .null), ("true", .boolean true), ("false", .boolean false), ("NaN", .real .nan),
   ("Infinity", .real (.infinite false)), ("-Infinity", .real (.infinite true))]

/-- The word at the front of what is left. -/
def readWord? (cursor : Cursor) : Option (Value × Cursor) :=
  (words.find? fun word => word.1.toList.isPrefixOf cursor.rest).map fun word =>
    (word.2, cursor.past word.1.length (cursor.rest.drop word.1.length))

/-- Reads the name of a field, with the colon and the blanks around it. -/
def readName (steps : Nat) (cursor : Cursor) : Except Failure (CodeText × Cursor) :=
  match cursor.rest with
  | '\x22' :: rest => do
    let (name, after) ← readText cursor.index steps [] (cursor.index + 1) rest
    let after := after.skipBlanks
    match after.rest with
    | ':' :: rest => return (name, (after.past 1 rest).skipBlanks)
    | _ => throw (.malformed .expectedColon after.index)
  | _ => .error (.malformed .expectedName cursor.index)

mutual
/-- Reads the value at the front of what is left. Every call but that of `readItems` or
`readFields` for the first element takes a character, so twice as many steps as there are
characters suffice. -/
def readValue : (steps depth : Nat) → Cursor → Except Failure (Value × Cursor)
  | 0, _, cursor => .error (.malformed .expectedValue cursor.index)
  | steps + 1, depth, cursor =>
    match cursor.rest with
    | '\x22' :: rest =>
      (readText cursor.index steps [] (cursor.index + 1) rest).map
        fun (s, after) => (.text s, after)
    | '\x7b' :: rest =>
      match depth with
      | 0 => .error .tooDeep
      | depth + 1 =>
        let inside := (cursor.past 1 rest).skipBlanks
        match inside.rest with
        | '\x7d' :: rest => .ok (.object [], inside.past 1 rest)
        | _ => readFields steps depth [] inside
    | '[' :: rest =>
      match depth with
      | 0 => .error .tooDeep
      | depth + 1 =>
        let inside := (cursor.past 1 rest).skipBlanks
        match inside.rest with
        | ']' :: rest => .ok (.list [], inside.past 1 rest)
        | _ => readItems steps depth [] inside
    | _ =>
      match readWord? cursor with
      | some result => .ok result
      | none => (readNumber? cursor).getD (.error (.malformed .expectedValue cursor.index))
/-- Reads the rest of an object, from the name of its next field; `fields` are those before. -/
def readFields : (steps depth : Nat) → (fields : List (CodeText × Value)) → Cursor →
    Except Failure (Value × Cursor)
  | 0, _, _, cursor => .error (.malformed .expectedName cursor.index)
  | steps + 1, depth, fields, cursor =>
    match readName steps cursor with
    | .error e => .error e
    | .ok (name, after) =>
      match readValue steps depth after with
      | .error e => .error e
      | .ok (v, after) =>
        let fields := setField name v fields
        let after := after.skipBlanks
        match after.rest with
        | '\x7d' :: rest => .ok (.object fields, after.past 1 rest)
        | ',' :: rest => readFields steps depth fields (after.past 1 rest).skipBlanks
        | _ => .error (.malformed .expectedComma after.index)
/-- Reads the rest of a list, from its next item; `items` are those before, in reverse. -/
def readItems : (steps depth : Nat) → (items : List Value) → Cursor →
    Except Failure (Value × Cursor)
  | 0, _, _, cursor => .error (.malformed .expectedValue cursor.index)
  | steps + 1, depth, items, cursor =>
    match readValue steps depth cursor with
    | .error e => .error e
    | .ok (v, after) =>
      let after := after.skipBlanks
      match after.rest with
      | ']' :: rest => .ok (.list (v :: items).reverse, after.past 1 rest)
      | ',' :: rest => readItems steps depth (v :: items) (after.past 1 rest).skipBlanks
      | _ => .error (.malformed .expectedComma after.index)
end

/-- The value of a document in which lists and objects nest at most `depth` deep. -/
def read (depth : Nat) (document : List Char) : Except Failure Value :=
  match document with
  | '\ufeff' :: _ => .error (.malformed .byteOrderMark 0)
  | _ => do
    let start := Cursor.skipBlanks ⟨document, 0⟩
    let (v, after) ← readValue (2 * document.length + 2) depth start
    let after := after.skipBlanks
    if after.rest.isEmpty then return v
    else throw (.malformed .extraData after.index)

/-- The line and column of the character numbered `index`, both counted from one. -/
def place (document : List Char) (index : Nat) : Nat × Nat :=
  let before := document.take index
  (before.count '\n' + 1, (before.reverse.takeWhile (· ≠ '\n')).length + 1)

end Unroll.Json
