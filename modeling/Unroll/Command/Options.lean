import Unroll.Command.Usage
import Unroll.Role
import Unroll.Text.Numeral
import Unroll.Text.Quoted

/-!
# Command line options

The options of the program, how each word of a command line is to be taken, and what is wrong with
a command line that is refused.

* `Opt` — the options, with the names that stand for them;
* `Word.classify` — a word is an option, the separator after which there are no more options, or an
  argument. The name of a long option may be cut short as long as no other begins so.
* `UsageError` — what is wrong with a command line.
-/

namespace Unroll.Command

/-- The options of the program. -/
inductive Opt where
  | help
  | output
  | configFile
  | symbol (role : Role)
  | noAlign
  | lineWidth
  | noNewline
  | license
  | verbose
  | version
deriving DecidableEq, Repr

namespace Opt

/-- All options, in the order in which their names are searched. -/
def all : List Opt :=
  [help, output, configFile, symbol .operator, symbol .numberPrefix, symbol .macroPrefix,
   symbol .escapePrefix, symbol .groupStart, symbol .groupEnd, noAlign, lineWidth, noNewline,
   license, verbose, version]

/-- The name of a setting as a long option. -/
def longName (key : String) : String :=
  "--" ++ String.ofList (key.toList.map fun c => if c = '_' then '-' else c)

/-- The names of an option. -/
def names : Opt → List String
  | help => ["-h", "--help"]
  | output => ["-o", "--output"]
  | configFile => ["-C", "--config-file"]
  | symbol .operator => ["-+", longName (Role.key .operator)]
  | symbol .numberPrefix => ["-#", longName (Role.key .numberPrefix)]
  | symbol .macroPrefix => ["-m", longName (Role.key .macroPrefix)]
  | symbol .escapePrefix => ["-e", longName (Role.key .escapePrefix)]
  | symbol role => [longName role.key]
  | noAlign => ["-n", "--no-align"]
  | lineWidth => ["-l", "--line-width"]
  | noNewline => ["-b", "--no-newline"]
  | license => ["-L", "--license"]
  | verbose => ["-v", "--verbose"]
  | version => ["--version"]

/-- An option inside messages: all its names. -/
def display (o : Opt) : String := "/".intercalate o.names

/-- Whether an option has a value. -/
def takesValue : Opt → Bool
  | output | configFile | symbol _ | lineWidth => true
  | _ => false

/-- All names, each with its option. -/
def table : List (String × Opt) := all.flatMap fun o => o.names.map fun name => (name, o)

/-- The option of a name. -/
def ofName? (name : String) : Option Opt := table.lookup name

end Opt

/-! ### Refused command lines -/

/-- What is wrong with a command line. -/
inductive UsageError where
  /-- a long option is cut so short that several begin so -/
  | ambiguous (word : String) (candidates : List String)
  /-- the value of an option is missing -/
  | valueMissing (o : Opt)
  /-- something is attached to an option that has no value -/
  | valueIgnored (o : Opt) (text : String)
  /-- two options exclude each other -/
  | excluded (o other : Opt)
  /-- one character was wanted -/
  | notCharacter (o : Opt) (text : String)
  /-- a whole number was wanted -/
  | notInteger (o : Opt) (text : String)
  /-- a positive number was wanted -/
  | notPositive (o : Opt) (n : Int)
  /-- words are left over -/
  | unrecognized (words : List String)
  /-- symbols are given beside a configuration file -/
  | symbolsExcluded (roles : List Role)
deriving DecidableEq, Repr

namespace UsageError

/-- A message about an option. -/
def about (o : Opt) (text : String) : String := s!"argument {o.display}: {text}"

/-- The description of what is wrong. -/
def message : UsageError → String
  | ambiguous word candidates =>
    s!"ambiguous option: {word} could match " ++ ", ".intercalate candidates
  | valueMissing o => about o "expected one argument"
  | valueIgnored o text => about o ("ignored explicit argument " ++ Text.quoted text)
  | excluded o other => about o s!"not allowed with argument {other.display}"
  | notCharacter o text => about o ("expected a single character, got " ++ Text.quoted text)
  | notInteger o text => about o ("invalid integer " ++ Text.quoted text)
  | notPositive o n => about o s!"line width must be positive, got {n}"
  | unrecognized words => "unrecognized arguments: " ++ " ".intercalate words
  | symbolsExcluded roles =>
    about .configFile
      ("not allowed with " ++ ", ".intercalate (roles.map fun role => Opt.longName role.key))

end UsageError

/-! ### The words of a command line -/

/-- How a word is to be taken. -/
inductive Word where
  /-- an argument, or the value of an option -/
  | plain (text : String)
  /-- what follows are arguments -/
  | separator
  /-- an option, by one of its names, with what is attached to it -/
  | option (o : Opt) (name : String) (attached : Option String)
  /-- looks like an option, but there is none of this name -/
  | unknown (text : String)
deriving DecidableEq, Repr

namespace Word

/-- The word `--`. -/
def separatorText : String := "--"

/-- `text` is cut at its first equals sign. -/
def cutAtEquals (text : List Char) : Option (List Char × List Char) :=
  if text.contains '=' then
    some (text.takeWhile (· ≠ '='), (text.dropWhile (· ≠ '=')).drop 1)
  else none

/-- A negative number, which is an argument: digits of any script after a minus sign, with at most
one decimal point, which a digit has to follow. A line feed may stand at the end. -/
def isNegativeNumber (text : List Char) : Bool :=
  match text with
  | '-' :: rest =>
    let rest := if rest.getLast? = some '\n' then rest.dropLast else rest
    let isDigit (c : Char) : Bool := (Text.decimalDigit? c).isSome
    match rest.dropWhile isDigit with
    | [] => !rest.isEmpty
    | '.' :: fraction => !fraction.isEmpty && fraction.all isDigit
    | _ => false
  | _ => false

/-- The options that a word may mean that is no option's name: a long option cut short, with or
without a value attached; or a short option with its value or with more short options attached. -/
def candidates (text : List Char) : List (Opt × String × Option String) :=
  let startingWith (start : List Char) (attached : Option String) :=
    (Opt.table.filter fun entry => start.isPrefixOf entry.1.toList).map fun (name, o) =>
      (o, name, attached)
  match text with
  | '-' :: '-' :: _ =>
    match cutAtEquals text with
    | some (name, value) => startingWith name (some (String.ofList value))
    | none => startingWith text none
  | a :: b :: rest =>
    Opt.table.filterMap fun (name, o) =>
      if name.toList = [a, b] then some (o, name, some (String.ofList rest))
      else if text.isPrefixOf name.toList then some (o, name, none)
      else none
  | _ => []

/-- How a word other than the separator is to be taken. -/
def classify (word : String) : Except UsageError Word :=
  let text := word.toList
  if text.head? ≠ some '-' then .ok (.plain word)
  else match Opt.ofName? word with
    | some o => .ok (.option o word none)
    | none =>
      if text.length = 1 then .ok (.plain word)
      else
        let named := do
          let (name, value) ← cutAtEquals text
          let name := String.ofList name
          return Word.option (← Opt.ofName? name) name (some (String.ofList value))
        match named with
        | some word => .ok word
        | none =>
          match candidates text with
          | [(o, name, attached)] => .ok (.option o name attached)
          | [] =>
            if isNegativeNumber text || text.contains ' ' then .ok (.plain word)
            else .ok (.unknown word)
          | several => .error (.ambiguous word (several.map fun (_, name, _) => name))

/-- How the words of a command line are to be taken. -/
def classifyAll : List String → Except UsageError (List Word)
  | [] => .ok []
  | word :: rest =>
    if word = separatorText then .ok (.separator :: rest.map .plain)
    else do
      let first ← classify word
      return first :: (← classifyAll rest)

end Word

end Unroll.Command
