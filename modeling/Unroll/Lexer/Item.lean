import Unroll.Lexer.Number

/-!
# Items, definitions and groups

The readers at the heart of the lexer. They know

* **operators**, which are tokens themselves;
* **numbers**, a number prefix and decimal digits;
* **groups**, tokens between the two group delimiters;
* **macro definitions**, a macro prefix, any character and a token. From then on the character
  stands for the token, even if it has a role;
* **escapes**, an escape prefix, which hides the character after it;

and skip everything else. A syntax error does not end a group: the errors of a group are reported
together at its end.

A reader is given a `depth`, the number of readers that may be at work inside of each other, and a
number of `steps`, which only bounds the recursion. Of two readers called one inside of the other,
at least one consumes a character, so `Lexer.steps` are more than any reader takes.
-/

namespace Unroll

/-- What stands next in a program. -/
inductive Lexer.Item where
  | token (t : Token)
  | groupEnd
  | inputEnd

/-- What became of a macro definition: it is complete, or a group end delimiter stood in place of
its body. -/
inductive Lexer.Definition where
  | complete
  | abandoned
deriving DecidableEq, Repr

namespace Lexer

/-- Binds a symbol to a token. -/
def bindMacro (l : Lexer) (symbol : Char) (body : Token) : Lexer :=
  { l with macros := l.macros.bind symbol body, log := ⟨l.position, symbol, body⟩ :: l.log }

/-- What a group with the given tokens and diagnostics is, both in reverse, at its end. -/
def finishGroup (config : Config) (tokens : List Token) (found : List Diagnostic) (l : Lexer) :
    Except Failure Token :=
  match Report.ofList? found.reverse with
  | some r => .error (.rejected (.report r))
  | none => if tokens.isEmpty then l.reject (emptyGroup config) else .ok (.group tokens.reverse)

mutual
/-- Reads the next token, or finds a group end delimiter or the end of the input. -/
def itemIn (config : Config) : (steps depth : Nat) → Lexer → Except Failure Item × Lexer
  | 0, _, l => (.ok .inputEnd, l)
  | _, 0, l => (.error .tooDeep, l)
  | steps + 1, depth + 1, l =>
    match l.next with
    | (.error f, l) => (.error (.input f), l)
    | (.ok none, l) => (.ok .inputEnd, l)
    | (.ok (some c), l) =>
      match l.macros.lookup c with
      | some body => (.ok (.token body), l)
      | none =>
        match config.roleOf c with
        | none => itemIn config steps (depth + 1) l
        | some .operator => (.ok (.token (.operator (String.singleton c))), l)
        | some .groupEnd => (.ok .groupEnd, l)
        | some .escapePrefix =>
          match l.next with
          | (.error f, l) => (.error (.input f), l)
          | (.ok _, l) => itemIn config steps (depth + 1) l
        | some .numberPrefix =>
          match numberIn config steps l with
          | (.ok t, l) => (.ok (.token t), l)
          | (.error e, l) => (.error e, l)
        | some .macroPrefix =>
          match definitionIn config steps depth l with
          | (.ok .complete, l) => itemIn config steps (depth + 1) l
          | (.ok .abandoned, l) => (.ok .groupEnd, l)
          | (.error e, l) => (.error e, l)
        | some .groupStart =>
          match groupIn config steps depth [] [] l with
          | (.ok t, l) => (.ok (.token t), l)
          | (.error e, l) => (.error e, l)
/-- Reads the symbol and the body after a macro prefix, and binds the symbol to the body. -/
def definitionIn (config : Config) : (steps depth : Nat) → Lexer →
    Except Failure Definition × Lexer
  | 0, _, l => (.ok .abandoned, l)
  | _, 0, l => (.error .tooDeep, l)
  | steps + 1, depth + 1, l =>
    match l.next with
    | (.error f, l) => (.error (.input f), l)
    | (.ok none, l) => (l.reject (macroMissing config), l)
    | (.ok (some symbol), l) =>
      match itemIn config steps depth l with
      | (.error e, l) => (.error e, l)
      | (.ok .inputEnd, l) => (l.reject (macroMissing config), l)
      | (.ok .groupEnd, l) => (.ok .abandoned, l)
      | (.ok (.token body), l) => (.ok .complete, l.bindMacro symbol body)
/-- Reads the rest of a group. The tokens and the diagnostics found in it so far stand in
reverse. -/
def groupIn (config : Config) : (steps depth : Nat) → (tokens : List Token) →
    (found : List Diagnostic) → Lexer → Except Failure Token × Lexer
  | 0, _, tokens, found, l => (finishGroup config tokens found l, l)
  | _, 0, _, _, l => (.error .tooDeep, l)
  | steps + 1, depth + 1, tokens, found, l =>
    match itemIn config steps depth l with
    | (.error (.rejected r), l) =>
      groupIn config steps (depth + 1) tokens (r.diagnostics.reverse ++ found) l
    | (.error e, l) => (.error e, l)
    | (.ok (.token t), l) => groupIn config steps (depth + 1) (t :: tokens) found l
    | (.ok .groupEnd, l) => (finishGroup config tokens found l, l)
    | (.ok .inputEnd, l) =>
      (finishGroup config tokens (⟨l.position, unclosed config⟩ :: found) l, l)
end

end Lexer

end Unroll
