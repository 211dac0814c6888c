import Unroll.Command.Options
import Unroll.Files.Path
import Unroll.Json.Value

/-!
# Command line arguments

What a command line asks for.

* `OptionValue` — the value of an option. A separator (`--`) that is attached to an option is taken
  away by the parser of the words, which drops separators from the values it has collected. This
  leaves the option without a value although it was given one;
* `Given` — what was given so far while the words are read from left to right;
* `Given.apply` — one option, with all that can be wrong with it;
* `Arguments` — what a command line asks for as a whole;
* `Arguments.parse` — the arguments of a command line, or why there are none.
-/

namespace Unroll.Command

/-- The value of an option. -/
inductive OptionValue where
  | word (text : String)
  /-- there was one, a separator that was attached to the option, and the parser of the words took it
  away like any other separator -/
  | nothing
deriving DecidableEq, Repr

namespace OptionValue

/-- The value of an option that `text` was given for. -/
def ofText (text : String) : OptionValue :=
  if text = Word.separatorText then nothing else word text

/-- A value as a path; an empty one leads nowhere. -/
def path? : OptionValue → Option String
  | word text => if text = "" then none else some (Path.normalise text)
  | nothing => none

/-- A value as a setting: nothing is an empty list. -/
def setting : OptionValue → Json.Value
  | word text => .text text
  | nothing => .list []

end OptionValue

/-- How the output is broken into lines. -/
inductive LineWidth where
  /-- not at all -/
  | unbounded
  | columns (n : Int)
  /-- a width was given that the parser of the words took away: `OptionValue.nothing` -/
  | nothing
deriving DecidableEq, Repr

/-- What was given so far. -/
structure Given where
  input : Option String
  output : Option OptionValue
  configFile : Option OptionValue
  symbols : List (Role × OptionValue)
  noAlign : Bool
  lineWidth : Option LineWidth
  noNewline : Bool
  license : Bool
  verbose : Bool
deriving DecidableEq, Repr

/-- Why a command line gives no arguments. -/
inductive Exit where
  /-- the help was asked for -/
  | help
  /-- the version was asked for -/
  | version
  /-- something is wrong -/
  | usage (e : UsageError)
deriving DecidableEq, Repr

namespace Given

/-- Nothing is given. -/
def empty : Given where
  input := none
  output := none
  configFile := none
  symbols := []
  noAlign := false
  lineWidth := none
  noNewline := false
  license := false
  verbose := false

/-- A value of one character, as all symbols but the operators have to be. -/
def character (o : Opt) (value : OptionValue) : Except UsageError OptionValue :=
  match value with
  | .word text => if text.length = 1 then .ok value else .error (.notCharacter o text)
  | .nothing => .ok value

/-- A value as the width of a line. -/
def width (value : OptionValue) : Except UsageError LineWidth :=
  match value with
  | .nothing => .ok .nothing
  | .word text =>
    match Text.readInteger? text with
    | none => .error (.notInteger .lineWidth text)
    | some n => if n < 1 then .error (.notPositive .lineWidth n) else .ok (.columns n)

/-- Gives a symbol, in place of what was given for its role. -/
def setSymbol (g : Given) (role : Role) (value : OptionValue) : Given :=
  { g with symbols := (role, value) :: g.symbols.filter (·.1 ≠ role) }

/-- Gives an option, with its value if it has one. -/
def apply (g : Given) (o : Opt) (value : OptionValue) : Except Exit Given :=
  match o with
  | .help => .error .help
  | .version => .error .version
  | .output => .ok { g with output := some value }
  | .configFile => .ok { g with configFile := some value }
  | .symbol .operator => .ok (g.setSymbol .operator value)
  | .symbol role => (character o value).mapError .usage |>.map (g.setSymbol role ·)
  | .noAlign =>
    if g.lineWidth.isSome then .error (.usage (.excluded .noAlign .lineWidth))
    else .ok { g with noAlign := true }
  | .lineWidth => do
    let width ← (width value).mapError .usage
    if g.noAlign then .error (.usage (.excluded .lineWidth .noAlign))
    else .ok { g with lineWidth := some width }
  | .noNewline => .ok { g with noNewline := true }
  | .license => .ok { g with license := true }
  | .verbose => .ok { g with verbose := true }

end Given

/-! ### Options and their values -/

/-- The options that one word stands for, in order: the first has names of its own, the others are
the characters attached to it. Only the last can have a value; it is `attached` or, if that is
missing, still to come. -/
structure Cluster where
  flags : List Opt
  last : Opt
  attached : Option String
deriving DecidableEq, Repr

/-- Takes apart what is attached to an option without a value: more short options. A long option
has none of its own. -/
def Cluster.ofAttached (flags : List Opt) (o : Opt) (name : String) :
    (attached : List Char) → Except UsageError Cluster
  | [] => .ok ⟨flags.reverse, o, none⟩
  | c :: rest =>
    if o.takesValue then .ok ⟨flags.reverse, o, some (String.ofList (c :: rest))⟩
    else
      let next := String.ofList ['-', c]
      match name.toList, Opt.ofName? next with
      | '-' :: '-' :: _, _ => .error (.valueIgnored o (String.ofList (c :: rest)))
      | _, some other => ofAttached (o :: flags) other next rest
      | _, none => .error (.valueIgnored o (String.ofList (c :: rest)))

/-- The options that one word stands for. -/
def Cluster.ofWord (o : Opt) (name : String) (attached : Option String) :
    Except UsageError Cluster :=
  match attached with
  | none => .ok ⟨[], o, none⟩
  | some "" => if o.takesValue then .ok ⟨[], o, some ""⟩ else .error (.valueIgnored o "")
  | some text => ofAttached [] o name text.toList

/-- Gives the options of a cluster in order. -/
def Given.applyCluster (g : Given) (flags : List Opt) (last : Opt) (value : OptionValue) :
    Except Exit Given := do
  let g ← flags.foldlM (fun g o => g.apply o .nothing) g
  g.apply last value

/-! ### The words from left to right -/

/-- Takes up the words in order. `vacant` says that no input file was named yet, `extras` are the
words that belong nowhere, in reverse. -/
def Given.applyWords (vacant : Bool) (extras : List String) (g : Given) :
    List Word → Except Exit (Given × List String)
  | [] => .ok (g, extras.reverse)
  | .unknown text :: rest => applyWords vacant (text :: extras) g rest
  | .option o name attached :: rest => do
    let cluster ← (Cluster.ofWord o name attached).mapError .usage
    match cluster.attached, cluster.last.takesValue with
    | some text, _ =>
      applyWords vacant extras (← g.applyCluster cluster.flags cluster.last (.ofText text)) rest
    | none, false =>
      applyWords vacant extras (← g.applyCluster cluster.flags cluster.last .nothing) rest
    | none, true =>
      match rest with
      | .plain text :: rest =>
        applyWords vacant extras (← g.applyCluster cluster.flags cluster.last (.word text)) rest
      | _ => .error (.usage (.valueMissing cluster.last))
  | .plain text :: .separator :: rest =>
    if vacant then applyWords false extras { g with input := some text } rest
    else applyWords false (Word.separatorText :: text :: extras) g rest
  | .plain text :: rest =>
    if vacant then applyWords false extras { g with input := some text } rest
    else applyWords false (text :: extras) g rest
  | .separator :: .plain text :: rest =>
    if vacant then applyWords false extras { g with input := some text } rest
    else applyWords false (text :: Word.separatorText :: extras) g rest
  | .separator :: rest =>
    applyWords false (if vacant then extras else Word.separatorText :: extras) g rest

/-! ### The arguments -/

/-- What a command line asks for. -/
structure Arguments where
  /-- the file to preprocess, if not the standard input -/
  input : Option String
  /-- the file to write, if not the standard output -/
  output : Option String
  configFile : Option String
  /-- the symbols that were given, in the order of the roles -/
  symbols : List (Role × OptionValue)
  lineWidth : LineWidth
  noNewline : Bool
  license : Bool
  verbose : Bool
deriving DecidableEq, Repr

/-- The width of lines where nothing else is asked for. -/
def standardWidth : Int := 32

/-- What was given, as a whole. -/
def Given.toArguments (g : Given) : Except UsageError Arguments :=
  let symbols := Role.all.filterMap fun role => (g.symbols.lookup role).map fun value =>
    (role, value)
  if g.configFile.isSome && !symbols.isEmpty then
    .error (.symbolsExcluded (symbols.map (·.1)))
  else .ok {
    input := g.input.bind fun text => (OptionValue.word text).path?
    output := g.output.bind OptionValue.path?
    configFile := g.configFile.bind OptionValue.path?
    symbols
    lineWidth := if g.noAlign then .unbounded else g.lineWidth.getD (.columns standardWidth)
    noNewline := g.noNewline
    license := g.license
    verbose := g.verbose }

/-- The arguments of a command line, or why there are none. -/
def Arguments.parse (words : List String) : Except Exit Arguments := do
  let words ← (Word.classifyAll words).mapError .usage
  let (g, extras) ← Given.empty.applyWords true [] words
  if extras.isEmpty then g.toArguments.mapError .usage
  else throw (.usage (.unrecognized extras))

/-- What the program prints on its two outputs, and its exit code, when it ends at once. -/
def Exit.report (version : String) : Exit → Nat × String × String
  | .help => (0, Command.help, "")
  | .version => (0, title version ++ "\n", "")
  | .usage e => (2, "", Command.usage ++ s!"{program}: error: {e.message}\n")

end Unroll.Command
