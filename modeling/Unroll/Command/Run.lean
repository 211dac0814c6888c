import Unroll.Command.Arguments
import Unroll.Command.Log
import Unroll.Preprocess

/-!
# The command line program

The program reads a file or its standard input, preprocesses it, and writes the result to a file or
its standard output. The input is read to its end before the output file is opened, so that the
file is left untouched if anything is wrong with the input, also if both are the same file.

* `Limits`, `Surroundings` — what the program finds around it;
* `Result` — what it leaves;
* `run` — from the one to the other.
-/

namespace Unroll.Command

/-- How deeply things may be nested inside of each other before they are given up: what the program
is run by has only so much room for calls inside of calls. -/
structure Limits where
  /-- lists and objects of a document -/
  document : Nat
  /-- readers at work, and groups that are written -/
  nesting : Nat

/-- The limits where nothing else is wanted. -/
def Limits.usual : Limits := ⟨documentLimit, Lexer.nestingLimit⟩

/-- What the program finds around it. -/
structure Surroundings where
  files : Files
  /-- the characters of the standard input, whose line ends are left as they are -/
  stdin : Stream
  /-- the standard input fails in no other way than streams announce -/
  stdin_expected : stdin.ending.isExpected = true
  /-- the characters that the standard output can hold -/
  charset : Text.Charset
  /-- whether the standard error output is a terminal -/
  terminal : Bool
  /-- what terminals are told by the library for colours -/
  paint : Paint
  /-- the version that the package of the program tells -/
  version : String
  limits : Limits

/-- What the standard error output is painted with: nothing, unless it is a terminal. -/
def Surroundings.paint? (around : Surroundings) : Option Paint :=
  if around.terminal then some around.paint else none

/-- The program finds no files and no terminal, and a text on its standard input. -/
def Surroundings.ofText (text : List Char) : Surroundings where
  files := .empty
  stdin := ⟨text, .quiet⟩
  stdin_expected := Stream.isExpected_of_text text
  charset := .utf8
  terminal := false
  paint := .common
  version := usualVersion
  limits := .usual

/-- What the program does not report in the way it reports other errors, but lets escape. -/
inductive Escape where
  /-- a fault that is not the system's, of a file that was to be opened or of the standard output
  that cannot hold the text about the license -/
  | fault (f : Fault)
  /-- the configuration file is nested too deeply -/
  | documentTooDeep
  /-- the width of lines was given as a separator attached to its option, which the parser of the
  words took away: `OptionValue.nothing` -/
  | widthMissing
deriving DecidableEq, Repr

/-- The description of what escapes. -/
def Escape.message : Escape → String
  | fault f => f.message
  | documentTooDeep => Config.DocumentFault.tooDeep.message
  | widthMissing => "'<' not supported between instances of 'list' and 'int'"

/-- How the program ends. -/
inductive Outcome where
  | code (n : Nat)
  | escape (e : Escape)
deriving DecidableEq, Repr

/-- What the program leaves. -/
structure Result where
  outcome : Outcome
  stdout : String
  stderr : String
  files : Files
  warnings : List String

/-- Why the program gives up. -/
inductive Abort where
  /-- with a report of what it was about, and of what happened -/
  | reported (context cause : String)
  | escape (e : Escape)

/-- A failure that is reported, with what it was about. -/
def Abort.ofFailure (context : String) (e : Failure) : Abort :=
  .reported context (e.text?.getD "")

/-- The context of everything that goes wrong with the program that is preprocessed. -/
def preprocessing : String := "failure while preprocessing"

/-- The context of a file that cannot be opened. -/
def opening (path : String) : String := s!"failed to open '{path}'"

/-- What a fault means that is met when a file is opened. -/
def Abort.ofOpening (path : String) (f : Fault) : Abort :=
  if f.isSystem then .reported (opening path) f.message else .escape (.fault f)

/-! ### The steps -/

/-- The configuration that the arguments ask for, and the warnings about it. -/
def loadConfig (around : Surroundings) (arguments : Arguments) :
    List String × Except Abort Config :=
  match arguments.configFile with
  | some path =>
    let (warnings, result) := Config.ofFile around.files around.limits.document path
    (warnings, result.mapError fun
      | .document .tooDeep => .escape .documentTooDeep
      | e => .reported s!"failed to parse config '{path}'" e.message)
  | none =>
    let settings := arguments.symbols.foldl
      (fun settings (role, value) => settings.set value.setting role) Settings.standard
    ([], (Config.ofSettings settings).mapError fun e =>
      .reported "invalid configuration" e.message)

/-- The tokens of the program, and the bindings made while it was read. -/
def readTokens (around : Surroundings) (config : Config) (arguments : Arguments) :
    Except Abort (List Token) × List Binding :=
  let origin := match arguments.input with
    | some path => Origin.file path
    | none => .stream around.stdin
  let (result, bindings, _) := tokenizeFrom around.files config around.limits.nesting origin
  (result.mapError fun e =>
    match arguments.input, e with
    | some path, .fault f => .ofOpening path f
    | none, .fault f => .escape (.fault f)
    | _, _ => .ofFailure preprocessing e, bindings)

/-- Writes tokens and, unless it is not wanted, the end of the last line. -/
def writeOutput (depth : Nat) (arguments : Arguments) (tokens : List Token) (sink : Sink) :
    Except Abort Unit × Sink :=
  let width? : Option (Option Int) := match arguments.lineWidth with
    | .unbounded => some none
    | .columns n => some (some n)
    | .nothing => none
  match width? with
  | none => (.error (.escape .widthMissing), sink)
  | some width =>
    match writeAll depth tokens width sink with
    | (.error e, sink) => (.error (.ofFailure preprocessing (.ofWrite e)), sink)
    | (.ok (), sink) =>
      if arguments.noNewline then (.ok (), sink)
      else match sink.write "\n" with
        | (.ok (), sink) => (.ok (), sink)
        | (.error f, sink) => (.error (.ofFailure preprocessing (.ofOutput f)), sink)

/-- What is known after the steps. -/
structure Progress where
  result : Except Abort Unit
  stdout : String
  files : Files
  warnings : List String
  log : List Event

/-- Preprocesses as the arguments ask for. -/
def preprocessAs (around : Surroundings) (arguments : Arguments) : Progress :=
  let files := around.files
  match loadConfig around arguments with
  | (warnings, .error e) => { result := .error e, stdout := "", files, warnings, log := [] }
  | (warnings, .ok config) =>
    let (result, bindings) := readTokens around config arguments
    let log := .configured config :: bindings.map .bound
    match result with
    | .error e => { result := .error e, stdout := "", files, warnings, log }
    | .ok tokens =>
      match arguments.output with
      | none =>
        let (result, sink) :=
          writeOutput around.limits.nesting arguments tokens (.encoding around.charset)
        { result, stdout := sink.output, files, warnings, log }
      | some path =>
        match files.create path with
        | .error f =>
          { result := .error (.ofOpening path f), stdout := "", files, warnings, log }
        | .ok (place, files) =>
          let (result, sink) := writeOutput around.limits.nesting arguments tokens .unlimited
          { result, stdout := "", files := files.store place sink.output, warnings, log }

/-! ### The whole program -/

/-- The lines about the license, or what is wrong with writing them. The first text does not fit
into small character sets, and then nothing is written. -/
def showLicense (charset : Text.Charset) (version : String) : Except Escape String :=
  match charset.refusal? (credits version).toList with
  | some run => .error (.fault (.unencodable run))
  | none => .ok (credits version ++ "\n\n" ++ terms ++ "\n")

/-- The lines that are logged when the program ends. -/
def logged (around : Surroundings) (verbose : Bool) (progress : Progress) : String :=
  let line level message := logLine around.paint? level message ++ "\n"
  let events := if verbose then progress.log else []
  let errors := match progress.result with
    | .error (.reported context cause) => line Level.error (context ++ "\n\n" ++ cause)
    | _ => ""
  String.join (events.map fun e => line Level.debug e.message) ++ errors

/-- Runs the program with the words of its command line. -/
def run (around : Surroundings) (words : List String) : Result :=
  match Arguments.parse words with
  | .error exit =>
    let (code, stdout, stderr) := exit.report around.version
    { outcome := .code code, stdout, stderr, files := around.files, warnings := [] }
  | .ok arguments =>
    if arguments.license then
      let (outcome, stdout) := match showLicense around.charset around.version with
        | .ok text => (Outcome.code 0, text)
        | .error e => (Outcome.escape e, "")
      { outcome, stdout, stderr := "", files := around.files, warnings := [] }
    else
      let progress := preprocessAs around arguments
      { outcome := match progress.result with
          | .ok () => .code 0
          | .error (.reported ..) => .code 1
          | .error (.escape e) => .escape e
        stdout := progress.stdout
        stderr := logged around arguments.verbose progress
        files := progress.files
        warnings := progress.warnings }

end Unroll.Command
