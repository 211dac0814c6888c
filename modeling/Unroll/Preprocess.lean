import Unroll.Config.Document
import Unroll.Failure
import Unroll.Files.Content
import Unroll.Files.Tree
import Unroll.Lexer.Program

/-!
# Preprocessing

A program is read from a stream or a file, and what its tokens spell out is written to a sink or a
file. The whole program is read before anything is opened for writing, so that a program that is
wrong leaves the destination as it was.

* `tokenize`, `tokenizeFrom` — the tokens of a program;
* `writeTo` — writes tokens;
* `preprocess` — both, one after the other;
* `Config.ofFile` — the configuration in a file.
-/

namespace Unroll

/-! ### Reading -/

/-- Where a program comes from. -/
inductive Origin where
  | stream (s : Stream)
  | file (path : String)

/-- The tokens of a stream, and the lexer in its last state. -/
def tokenize (config : Config) (depth : Nat) (stream : Stream) :
    Except Failure (List Token) × Lexer :=
  let l := Lexer.ofSource (.ofStream stream Source.chunkSize)
  let (result, l) := l.readAll config depth
  (result.mapError .ofLexer, l)

/-- The stream of an origin. -/
def Origin.open? (files : Files) : Origin → Except Fault Stream
  | stream s => .ok s
  | file path => (files.open? path).map Stream.ofBytes

/-- The tokens of a program, the bindings made while it was read, the first of them first, and the
origin after that. -/
def tokenizeFrom (files : Files) (config : Config) (depth : Nat) (origin : Origin) :
    Except Failure (List Token) × List Binding × Origin :=
  match origin.open? files with
  | .error f => (.error (.fault f), [], origin)
  | .ok stream =>
    let (result, l) := tokenize config depth stream
    let origin := match origin with
      | .stream _ => .stream l.source.stream
      | .file path => .file path
    (result, l.log.reverse, origin)

/-! ### Writing -/

/-- Where the output goes. -/
inductive Target where
  | sink (s : Sink)
  | file (path : String)

/-- Writes tokens, in lines of the given width if there is one. A file is opened before anything
else is looked at. -/
def writeTo (files : Files) (depth : Nat) (tokens : List Token) (lineWidth : Option Int)
    (target : Target) : Except Failure Unit × Files × Target :=
  match target with
  | .sink s =>
    let (result, s) := writeAll depth tokens lineWidth s
    (result.mapError .ofWrite, files, .sink s)
  | .file path =>
    match files.create path with
    | .error f => (.error (.fault f), files, target)
    | .ok (place, files) =>
      let (result, s) := writeAll depth tokens lineWidth .unlimited
      (result.mapError .ofWrite, files.store place s.output, target)

/-! ### Both -/

/-- What is worth noting while a program is preprocessed. -/
inductive Event where
  /-- the command line has its configuration -/
  | configured (config : Config)
  | started (config : Config) (lineWidth : Option Int)
  | bound (b : Binding)
  /-- so many tokens stand outside of all groups -/
  | counted (tokens : Nat)

/-- The description of an event. -/
def Event.message : Event → String
  | configured config => s!"using {config.display}"
  | started config lineWidth =>
    let width := match lineWidth with
      | none => "None"
      | some width => toString width
    s!"preprocessing with {config.display}, line width {width}"
  | bound b => b.message
  | counted tokens => s!"read {tokens} top level tokens"

/-- What is left after preprocessing. -/
structure Preprocessed where
  result : Except Failure Unit
  files : Files
  origin : Origin
  target : Target
  log : List Event

/-- Preprocesses a program. The width of the lines is looked at first. -/
def preprocess (files : Files) (depth : Nat) (origin : Origin) (target : Target)
    (config : Config) (lineWidth : Option Int) : Preprocessed :=
  match lineWidth.filter (· < 1) with
  | some width => { result := .error (.width width), files, origin, target, log := [] }
  | none =>
    let (result, bindings, origin) := tokenizeFrom files config depth origin
    let log := .started config lineWidth :: bindings.map .bound
    match result with
    | .error e => { result := .error e, files, origin, target, log }
    | .ok tokens =>
      let (result, files, target) := writeTo files depth tokens lineWidth target
      { result, files, origin, target, log := log ++ [.counted tokens.length] }

/-! ### Configurations in files -/

/-- Why a file gives no configuration. -/
inductive Config.FileFault where
  | fault (f : Fault)
  | document (f : Config.DocumentFault)
deriving BEq, Repr

/-- The description of a fault. -/
def Config.FileFault.message : Config.FileFault → String
  | fault f => f.message
  | document f => f.message

/-- How deeply the lists and objects of a document may be nested where nothing else is wanted. -/
def documentLimit : Nat := 900

/-- The configuration that bytes describe, and the warnings about it. Lists and objects may nest
`depth` deep. -/
def Config.ofBytes (depth : Nat) (bytes : List UInt8) :
    List String × Except Config.FileFault Config :=
  match decodeWhole bytes with
  | .error f => ([], .error (.fault f))
  | .ok text =>
    let (warnings, result) := Config.readDocument depth text
    (warnings, result.mapError .document)

/-- The configuration in the file at `path`, and the warnings about it. -/
def Config.ofFile (files : Files) (depth : Nat) (path : String) :
    List String × Except Config.FileFault Config :=
  match files.open? path with
  | .error f => ([], .error (.fault f))
  | .ok bytes => Config.ofBytes depth bytes

end Unroll
