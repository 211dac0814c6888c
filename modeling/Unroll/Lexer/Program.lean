import Unroll.Lexer.Item

/-!
# Whole programs

The tokens of a program, one by one or all at once.

* `Lexer.readToken` — the next token;
* `Lexer.readAll` — all tokens, or all syntax errors;
* `Lexer.readList`, `Iteration.next` — tokens up to the first syntax error;
* `Lexer.readNumber`, `Lexer.readItem`, `Lexer.readDefinition`, `Lexer.readGroup` — the parts of a
  program, from wherever the lexer stands.
-/

namespace Unroll

namespace Lexer

/-! ### Tokens -/

/-- Reads the next token; none at the end of the input. -/
def tokenIn (config : Config) (steps depth : Nat) (l : Lexer) :
    Except Failure (Option Token) × Lexer :=
  match itemIn config steps depth l with
  | (.error e, l) => (.error e, l)
  | (.ok .inputEnd, l) => (.ok none, l)
  | (.ok .groupEnd, l) => (l.reject (unopened config), l)
  | (.ok (.token t), l) => (.ok (some t), l)

/-- Reads tokens up to the end of the input. Those read so far, and the diagnostics found, stand
in reverse. Each round, of which there are at most `rounds`, consumes a character. -/
def allIn (config : Config) (steps depth : Nat) : (rounds : Nat) → (tokens : List Token) →
    (found : List Diagnostic) → Lexer → Except Failure (List Token) × Lexer
  | 0, tokens, _, l => (.ok tokens.reverse, l)
  | rounds + 1, tokens, found, l =>
    match tokenIn config steps depth l with
    | (.error (.rejected r), l) =>
      allIn config steps depth rounds tokens (r.diagnostics.reverse ++ found) l
    | (.error e, l) => (.error e, l)
    | (.ok (some t), l) => allIn config steps depth rounds (t :: tokens) found l
    | (.ok none, l) =>
      match Report.ofList? found.reverse with
      | some r => (.error (.rejected (.report r)), l)
      | none => (.ok tokens.reverse, l)

/-- Reads tokens up to the end of the input or the first failure. -/
def listIn (config : Config) (steps depth : Nat) : (rounds : Nat) → (tokens : List Token) →
    Lexer → Except Failure (List Token) × Lexer
  | 0, tokens, l => (.ok tokens.reverse, l)
  | rounds + 1, tokens, l =>
    match tokenIn config steps depth l with
    | (.error e, l) => (.error e, l)
    | (.ok (some t), l) => listIn config steps depth rounds (t :: tokens) l
    | (.ok none, l) => (.ok tokens.reverse, l)

/-! ### The readers -/

/-- How deeply readers may be at work inside of each other where nothing else is wanted. -/
def nestingLimit : Nat := 1000

/-- Reads the number after a number prefix. -/
def readNumber (config : Config) (l : Lexer) : Except Failure Token × Lexer :=
  numberIn config l.steps l

/-- Reads the next token, or finds a group end delimiter or the end of the input. -/
def readItem (config : Config) (depth : Nat) (l : Lexer) : Except Failure Item × Lexer :=
  itemIn config l.steps depth l

/-- Reads the symbol and the body after a macro prefix. -/
def readDefinition (config : Config) (depth : Nat) (l : Lexer) :
    Except Failure Definition × Lexer :=
  definitionIn config l.steps depth l

/-- Reads the tokens after a group start delimiter, with the group end delimiter. -/
def readGroup (config : Config) (depth : Nat) (l : Lexer) : Except Failure Token × Lexer :=
  groupIn config l.steps depth [] [] l

/-- Reads the next token; none at the end of the input. -/
def readToken (config : Config) (depth : Nat) (l : Lexer) :
    Except Failure (Option Token) × Lexer :=
  tokenIn config l.steps depth l

/-- Reads every token up to the end of the input. All syntax errors are reported together. -/
def readAll (config : Config) (depth : Nat) (l : Lexer) : Except Failure (List Token) × Lexer :=
  allIn config l.steps depth l.steps [] [] l

/-- Reads every token up to the end of the input or the first failure. -/
def readList (config : Config) (depth : Nat) (l : Lexer) : Except Failure (List Token) × Lexer :=
  listIn config l.steps depth l.steps [] l

end Lexer

/-- A walk through the tokens of a lexer, which is over after the last token or a failure. -/
inductive Iteration where
  | running
  | over
deriving DecidableEq, Repr

/-- The next token of a walk; none when it is over, and then nothing is read. -/
def Iteration.next (config : Config) (depth : Nat) (walk : Iteration) (l : Lexer) :
    Except Lexer.Failure (Option Token) × Iteration × Lexer :=
  match walk with
  | .over => (.ok none, .over, l)
  | .running =>
    match l.readToken config depth with
    | (.ok (some t), l) => (.ok (some t), .running, l)
    | (.ok none, l) => (.ok none, .over, l)
    | (.error e, l) => (.error e, .over, l)

end Unroll
