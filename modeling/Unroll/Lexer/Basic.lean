import Unroll.Config.Basic
import Unroll.Diagnostic
import Unroll.Macro
import Unroll.Source

/-!
# The state of the lexer

The lexer reads tokens from a source of characters, with one character of lookahead. It keeps the
position it has reached and the macros bound so far.

* `Lexer` — the state;
* `Lexer.peek`, `Lexer.next` — the next character, looked at or consumed;
* `Lexer.Failure` — why a reader gives no result. A syntax error leaves a state from which reading
  can go on.
-/

namespace Unroll

/-- The state of a lexer. -/
structure Lexer where
  source : Source
  /-- a character that was pulled from the source and not consumed yet -/
  lookahead : Option Char
  /-- the position after the characters consumed -/
  position : Position
  macros : MacroTable
  /-- the bindings made so far, the latest first -/
  log : List Binding

/-- Why a reader gave no result. -/
inductive Lexer.Failure where
  /-- the program is wrong; reading can go on -/
  | rejected (r : Rejection)
  /-- the source failed -/
  | input (fault : Fault)
  /-- groups and definitions are nested too deeply -/
  | tooDeep
deriving DecidableEq, Repr

namespace Lexer

/-- A lexer at the start of a source. -/
def ofSource (source : Source) : Lexer where
  source := source
  lookahead := none
  position := .start
  macros := .empty
  log := []

/-- A lexer at the start of a text. -/
def ofText (text : List Char) : Lexer := ofSource (.ofText text .quiet)

/-! ### Characters -/

/-- The next character, which is not consumed; none at the end. -/
def peek (l : Lexer) : Except Fault (Option Char) × Lexer :=
  match l.lookahead with
  | some c => (.ok (some c), l)
  | none =>
    match l.source.pull with
    | (.ok c, source) => (.ok c, { l with source, lookahead := c })
    | (.error f, source) => (.error f, { l with source })

/-- The state after the character `c`, which stands next. -/
def consume (l : Lexer) (c : Char) : Lexer :=
  { l with lookahead := none, position := l.position.advance c }

/-- Consumes the next character; none at the end. -/
def next (l : Lexer) : Except Fault (Option Char) × Lexer :=
  match l.peek with
  | (.ok (some c), l) => (.ok (some c), l.consume c)
  | (.ok none, l) => (.ok none, l)
  | (.error f, l) => (.error f, l)

/-- No more characters are left than this. -/
def remaining (l : Lexer) : Nat := l.lookahead.toList.length + l.source.size

/-- A number of steps that no reader exceeds. -/
def steps (l : Lexer) : Nat := 2 * l.remaining + 3

/-! ### Diagnostics -/

/-- The rejection of what stands at `position`. -/
def rejectAt {α : Type} (position : Position) (problem : Problem) : Except Failure α :=
  .error (.rejected (.diagnostic ⟨position, problem⟩))

/-- The rejection of what stands at the current position. -/
def reject {α : Type} (l : Lexer) (problem : Problem) : Except Failure α :=
  rejectAt l.position problem

/-- A group is closed that was not opened. -/
def unopened (config : Config) : Problem :=
  .unopened [config.groupStart] [config.groupEnd]

/-- A group is still open at the end. -/
def unclosed (config : Config) : Problem :=
  .unclosed [config.groupStart] [config.groupEnd]

/-- A group has no tokens. -/
def emptyGroup (config : Config) : Problem :=
  .emptyGroup [config.groupStart] [config.groupEnd]

/-- A number prefix has no digits. -/
def numberMissing (config : Config) : Problem :=
  .numberMissing [config.numberPrefix]

/-- A number prefix has too large a number. -/
def numberOverflow (config : Config) (digits : List Char) : Problem :=
  .numberOverflow [config.numberPrefix] (String.ofList digits) maxNumber

/-- A macro prefix has no symbol or no body. -/
def macroMissing (config : Config) : Problem :=
  .macroMissing [config.macroPrefix]

end Lexer

end Unroll
