import Unroll.Text.Quoted

/-!
# UTF-8

Texts are stored in files as UTF-8. `decode` reads as many characters as the bytes hold and says
where and why it had to stop; `encode` writes them back.

A byte sequence is refused as soon as a byte rules it out, so `decode` reports the longest run of
bytes that could still have begun a character.
-/

namespace Unroll.Text.Utf8

/-- Why bytes are no text. -/
inductive Defect where
  /-- no character begins with the byte -/
  | invalidStart
  /-- a character was begun, and the byte after the run does not continue it -/
  | invalidContinuation
  /-- the bytes end inside a character -/
  | truncated
deriving DecidableEq, Repr

/-- A refused run of `length` bytes that begins at `position`; `first` is its first byte. -/
structure Refusal where
  position : Nat
  length : Nat
  first : UInt8
  defect : Defect
deriving DecidableEq, Repr

/-- The name of a defect inside messages. -/
def Defect.name : Defect → String
  | invalidStart => "invalid start byte"
  | invalidContinuation => "invalid continuation byte"
  | truncated => "unexpected end of data"

/-- The description of bytes that are no text. -/
def Refusal.message (r : Refusal) : String :=
  let what :=
    if r.length = 1 then
      "byte 0x" ++ String.ofList (hexDigits 2 r.first.toNat) ++ s!" in position {r.position}"
    else s!"bytes in position {r.position}-{r.position + r.length - 1}"
  s!"'utf-8' codec can't decode {what}: {r.defect.name}"

/-- Whether a byte continues a character. -/
def isTail (b : UInt8) : Bool := 0x80 ≤ b && b ≤ 0xBF

/-- Whether `b` may be the second byte of a character that begins with `a`: the first bytes
`E0`, `ED`, `F0` and `F4` leave less than the full range, which excludes overlong forms,
surrogates and numbers above `10FFFF`. -/
def isSecond (a b : UInt8) : Bool :=
  if a = 0xE0 then 0xA0 ≤ b && b ≤ 0xBF
  else if a = 0xED then 0x80 ≤ b && b ≤ 0x9F
  else if a = 0xF0 then 0x90 ≤ b && b ≤ 0xBF
  else if a = 0xF4 then 0x80 ≤ b && b ≤ 0x8F
  else isTail b

/-- How many bytes follow the first byte `a` of a character; `none` if no character begins so. -/
def tailLength? (a : UInt8) : Option Nat :=
  if a ≤ 0x7F then some 0
  else if 0xC2 ≤ a && a ≤ 0xDF then some 1
  else if 0xE0 ≤ a && a ≤ 0xEF then some 2
  else if 0xF0 ≤ a && a ≤ 0xF4 then some 3
  else none

/-- The six bits that a continuation byte carries, below those read so far. -/
def push (bits : Nat) (b : UInt8) : Nat := 64 * bits + (b.toNat - 0x80)

/-- What stands at the front of some bytes. -/
inductive Front where
  /-- a character, and the bytes after it -/
  | char (c : Char) (rest : List UInt8)
  /-- a run of `length` bytes that begins no character -/
  | refused (length : Nat) (defect : Defect)

/-- Reads the character that begins with `a`. -/
def front (a : UInt8) (rest : List UInt8) : Front :=
  match tailLength? a with
  | none => .refused 1 .invalidStart
  | some 0 => .char (Char.ofNat a.toNat) rest
  | some tails =>
    match rest with
    | [] => .refused 1 .truncated
    | b :: rest =>
      if !isSecond a b then .refused 1 .invalidContinuation
      else if tails = 1 then .char (Char.ofNat (push (a.toNat - 0xC0) b)) rest
      else match rest with
        | [] => .refused 2 .truncated
        | c :: rest =>
          if !isTail c then .refused 2 .invalidContinuation
          else if tails = 2 then .char (Char.ofNat (push (push (a.toNat - 0xE0) b) c)) rest
          else match rest with
            | [] => .refused 3 .truncated
            | d :: rest =>
              if !isTail d then .refused 3 .invalidContinuation
              else .char (Char.ofNat (push (push (push (a.toNat - 0xF0) b) c) d)) rest

/-- Reads characters until the bytes end or are refused, behind those of `done`, which stand in
reverse. `position` counts the bytes before `bytes`; a character has at least one byte, so as many
steps as there are bytes suffice. -/
def decodeOnto (done : List Char) : (steps : Nat) → (position : Nat) → (bytes : List UInt8) →
    List Char × Option Refusal
  | 0, _, _ => (done.reverse, none)
  | _, _, [] => (done.reverse, none)
  | steps + 1, position, a :: rest =>
    match front a rest with
    | .refused length defect => (done.reverse, some ⟨position, length, a, defect⟩)
    | .char c rest => decodeOnto (c :: done) steps (position + c.utf8Size) rest

/-- The characters that `bytes` begin with, and the first run that is refused, if any. -/
def decode (bytes : List UInt8) : List Char × Option Refusal :=
  decodeOnto [] bytes.length 0 bytes

/-- The number of the byte that settles that the run is refused; that of the end if nothing but the
end does. Two bytes of a surrogate are told from a character by the third. -/
def Refusal.settledAt (r : Refusal) (bytes : List UInt8) : Nat :=
  match r.defect, bytes.drop r.position with
  | .truncated, _ => bytes.length
  | .invalidStart, _ => r.position
  | .invalidContinuation, a :: b :: _ =>
    if a = 0xED && isTail b then r.position + 2 else r.position + r.length
  | .invalidContinuation, _ => r.position + r.length

/-- The bytes of one character. -/
def encodeChar (c : Char) : List UInt8 := String.utf8EncodeChar c

/-- The bytes of a text. -/
def encode (text : List Char) : List UInt8 := text.flatMap encodeChar

end Unroll.Text.Utf8
