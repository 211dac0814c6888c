import Mathlib.Data.List.Nodup
import Unroll.Failure
import Unroll.Proofs.Numbers
import Unroll.Proofs.Roles

/-!
# Renaming characters

A program may be written with other characters in place of its symbols. Newlines and digits alone
cannot be exchanged, since positions and numbers are told by them.

* `Renaming` — one character for another, with newlines and digits kept;
* `Renaming.point`, `Renaming.codeText` — halves of surrogate pairs are kept as well;
* `Renaming.text`, `Renaming.token`, `Renaming.problem` and so on — what is made of characters,
  renamed;
* `Renaming.config`, `Renaming.roleOf_config` — the configuration with renamed symbols.
-/

namespace Unroll

/-- A renaming of characters that keeps them apart, and keeps newlines and digits. -/
structure Renaming where
  toFun : Char → Char
  injective : Function.Injective toFun
  newline : toFun '\n' = '\n'
  digit {c : Char} (h : Lexer.isDigit c = true) : toFun c = c

namespace Renaming

instance : CoeFun Renaming fun _ => Char → Char := ⟨toFun⟩

variable (p : Renaming)

/-! ### Characters and texts -/

theorem apply_eq_newline_iff (c : Char) : p c = '\n' ↔ c = '\n' := by
  constructor
  · intro h
    exact p.injective (h.trans p.newline.symm)
  · rintro rfl
    exact p.newline

/-- Nothing but a digit becomes a digit. -/
@[simp] theorem isDigit_apply (c : Char) : Lexer.isDigit (p c) = Lexer.isDigit c := by
  by_cases h : Lexer.isDigit c = true
  · rw [p.digit h]
  · by_cases hp : Lexer.isDigit (p c) = true
    · have hc : p c = c := p.injective (p.digit hp)
      rw [hc] at hp
      exact absurd hp h
    · rw [Bool.eq_false_iff.2 h, Bool.eq_false_iff.2 hp]

@[simp] theorem advance_apply (position : Position) (c : Char) :
    position.advance (p c) = position.advance c := by
  simp only [Position.advance, p.apply_eq_newline_iff]

/-- The text with all characters renamed. -/
def text (s : String) : String := String.ofList (s.toList.map p)

@[simp] theorem text_singleton (c : Char) :
    p.text (String.singleton c) = String.singleton (p c) := by
  simp [text]

theorem text_newline : p.text "\n" = "\n" := by
  have h := p.text_singleton '\n'
  rwa [p.newline] at h

theorem text_append (s t : String) : p.text (s ++ t) = p.text s ++ p.text t := by
  simp [text]

theorem text_join (ts : List String) : p.text (String.join ts) = String.join (ts.map p.text) := by
  induction ts with
  | nil => simp [text]
  | cons t ts ih => rw [String.join_cons, text_append, ih, List.map_cons, String.join_cons]

/-! ### Code points -/

/-- A code point, renamed if it is a character. -/
def point : CodePoint → CodePoint
  | .char c => p c
  | .half index => .half index

theorem point_injective : Function.Injective p.point := by
  rintro (c | index) (d | other) h
  · exact congrArg CodePoint.char (p.injective (CodePoint.char.inj h))
  · cases h
  · cases h
  · exact h

/-- The text with all characters renamed. -/
def codeText (s : CodeText) : CodeText := s.map p.point

theorem codeText_singleton (c : CodePoint) : p.codeText [c] = [p.point c] := rfl

/-! ### Tokens and macros -/

mutual
/-- The token with all operators renamed. -/
def token : Token → Token
  | .number n => .number n
  | .operator symbol => .operator (p.text symbol)
  | .group ts => .group (tokens ts)
  | .foreign v => .foreign v
/-- The tokens with all operators renamed. -/
def tokens : List Token → List Token
  | [] => []
  | t :: ts => token t :: tokens ts
end

theorem tokens_eq_map (ts : List Token) : p.tokens ts = ts.map p.token := by
  induction ts with
  | nil => rfl
  | cons t ts ih => rw [tokens, ih, List.map_cons]

theorem token_group (ts : List Token) : p.token (.group ts) = .group (ts.map p.token) := by
  rw [token, tokens_eq_map]

/-- The table with all symbols and bodies renamed. -/
def macros (table : MacroTable) : MacroTable :=
  ⟨table.entries.map fun entry => (p entry.1, p.token entry.2)⟩

theorem lookup_macros (table : MacroTable) (c : Char) :
    (p.macros table).lookup (p c) = (table.lookup c).map p.token := by
  obtain ⟨entries⟩ := table
  simp only [macros, MacroTable.lookup]
  induction entries with
  | nil => rfl
  | cons entry entries ih =>
    obtain ⟨symbol, body⟩ := entry
    by_cases h : c = symbol
    · simp [h]
    · have hp : p c ≠ p symbol := fun heq => h (p.injective heq)
      simp only [List.map_cons, List.lookup_cons, beq_false_of_ne h, beq_false_of_ne hp, ih]

theorem macros_bind (table : MacroTable) (symbol : Char) (body : Token) :
    p.macros (table.bind symbol body) = (p.macros table).bind (p symbol) (p.token body) := by
  have hfilter : ∀ entry : Char × Token, (p entry.1 != p symbol) = (entry.1 != symbol) := by
    intro entry
    by_cases h : entry.1 = symbol
    · simp [h]
    · have hp : p entry.1 ≠ p symbol := fun heq => h (p.injective heq)
      rw [bne, bne, beq_false_of_ne h, beq_false_of_ne hp]
  simp only [macros, MacroTable.bind, List.map_cons, List.filter_map, Function.comp_def, hfilter]

/-! ### Diagnostics and failures -/

/-- The problem with all symbols renamed. The digits of a number stay. -/
def problem : Problem → Problem
  | .unopened opening closing => .unopened (p.codeText opening) (p.codeText closing)
  | .unclosed opening closing => .unclosed (p.codeText opening) (p.codeText closing)
  | .emptyGroup opening closing => .emptyGroup (p.codeText opening) (p.codeText closing)
  | .numberMissing marker => .numberMissing (p.codeText marker)
  | .numberOverflow marker digits maximum => .numberOverflow (p.codeText marker) digits maximum
  | .macroMissing marker => .macroMissing (p.codeText marker)
  | .unspecified => .unspecified

/-- The diagnostic at the same place with all symbols renamed. -/
def diagnostic (d : Diagnostic) : Diagnostic := ⟨d.position, p.problem d.problem⟩

/-- The report with all symbols renamed. -/
def report (r : Report) : Report where
  diagnostics := r.diagnostics.map p.diagnostic
  nonempty h := r.nonempty (List.map_eq_nil_iff.1 h)

/-- The rejection with all symbols renamed. -/
def rejection : Rejection → Rejection
  | .diagnostic d => .diagnostic (p.diagnostic d)
  | .report r => .report (p.report r)

@[simp] theorem diagnostics_rejection (r : Rejection) :
    (p.rejection r).diagnostics = r.diagnostics.map p.diagnostic := by
  cases r <;> rfl

theorem ofList?_map (ds : List Diagnostic) :
    Report.ofList? (ds.map p.diagnostic) = (Report.ofList? ds).map p.report := by
  cases ds <;> rfl

/-- The failure of a reader with all symbols renamed. -/
def refusal : Lexer.Failure → Lexer.Failure
  | .rejected r => .rejected (p.rejection r)
  | .input f => .input f
  | .tooDeep => .tooDeep

/-- The error with all symbols renamed: only rejections have any. -/
def error : Error → Error
  | .rejection r => .rejection (p.rejection r)
  | e => e

/-- The failure with all symbols renamed. -/
def failure : Failure → Failure
  | .error e => .error (p.error e)
  | e => e

theorem ofLexer_refusal (e : Lexer.Failure) :
    Failure.ofLexer (p.refusal e) = p.failure (Failure.ofLexer e) := by
  cases e with
  | rejected r => rfl
  | input f =>
    simp only [refusal, Failure.ofLexer, Failure.ofInput]
    split <;> rfl
  | tooDeep => rfl

/-! ### Configurations -/

/-- The configuration with all symbols renamed. -/
def config (c : Config) : Config where
  operators := p.codeText c.operators
  groupStart := p.point c.groupStart
  groupEnd := p.point c.groupEnd
  numberPrefix := p.point c.numberPrefix
  macroPrefix := p.point c.macroPrefix
  escapePrefix := p.point c.escapePrefix
  nodup := by
    have h := List.Nodup.map p.point_injective c.nodup
    rwa [List.map_append] at h

theorem symbols_config (config : Config) (role : Role) :
    (p.config config).symbols role = p.codeText (config.symbols role) := by
  cases role <;> rfl

/-- A renamed code point has the role that it had. -/
theorem roleOf_config (config : Config) (c : CodePoint) :
    (p.config config).roleOf (p.point c) = config.roleOf c := by
  have hiff : ∀ role, (p.config config).roleOf (p.point c) = some role ↔
      config.roleOf c = some role := by
    intro role
    rw [Config.roleOf_eq_some_iff, Config.roleOf_eq_some_iff, symbols_config, codeText,
      List.mem_map_of_injective p.point_injective]
  exact Option.ext hiff

end Renaming

end Unroll
