import Unroll.Preprocess
import Unroll.Proofs.WellFormed

/-!
# Programs without macros

Every program can be written without macros, escapes and skipped characters.

* `Token.canon`, `Token.canonAll` — the text that spells tokens out;
* `Token.nesting` — how deeply groups are nested;
* `Config.DigitFree` — no character that a token begins with is a digit;
* `SpelledOut` — a text is one of characters; `Token.spelled_canon` — for the tokens of a program the
  text that spells them out is one;
* `Spells.canon`, `Spells.canonAll` — that text spells the tokens;
* `preprocess_ok` — what is written depends on the tokens of a program only;
* `canonAll_faithful` — the text may take the place of a program.
-/

namespace Unroll

namespace Token

mutual
/-- The text that spells a token out. There is none for what is no token. -/
def canon (config : Config) : Token → CodeText
  | .number value => config.numberPrefix :: (Nat.toDigits 10 value.toNat).map .char
  | .operator symbol => symbol
  | .group tokens => config.groupStart :: (canonAll config tokens ++ [config.groupEnd])
  | .foreign _ => []
/-- The texts that spell several tokens out, one after the other. -/
def canonAll (config : Config) : List Token → CodeText
  | [] => []
  | t :: ts => t.canon config ++ canonAll config ts
end

mutual
/-- How many groups lie inside of each other in a token. -/
def nesting : Token → Nat
  | .group tokens => nestingAll tokens + 1
  | .number _ | .operator _ | .foreign _ => 0
/-- How many groups lie inside of each other in tokens. -/
def nestingAll : List Token → Nat
  | [] => 0
  | t :: ts => max t.nesting (nestingAll ts)
end

end Token

/-- No character that the text of a token may begin with is a digit. Nor is the end of a group. -/
structure Config.DigitFree (config : Config) : Prop where
  operator : ∀ c : Char, ↑c ∈ config.operators → Lexer.isDigit c = false
  groupStart : ∀ c : Char, config.groupStart = c → Lexer.isDigit c = false
  groupEnd : ∀ c : Char, config.groupEnd = c → Lexer.isDigit c = false
  numberPrefix : ∀ c : Char, config.numberPrefix = c → Lexer.isDigit c = false

/-- All symbols are characters. -/
def Config.InCharacters (config : Config) : Prop :=
  ∀ role, ∀ c ∈ config.symbols role, ∃ d : Char, c = d

/-- The characters `cs` are all that a text consists of. -/
def SpelledOut (text : CodeText) (cs : List Char) : Prop := cs.map .char = text

section

variable {config : Config}

/-! ### Texts in characters -/

theorem spelledOut_cons {c : CodePoint} {text : CodeText} {cs : List Char} :
    SpelledOut (c :: text) cs ↔ ∃ d ds, c = .char d ∧ SpelledOut text ds ∧ cs = d :: ds := by
  rw [SpelledOut, List.map_eq_cons_iff]
  constructor
  · rintro ⟨d, ds, rfl, rfl, hds⟩
    exact ⟨d, ds, rfl, hds, rfl⟩
  · rintro ⟨d, ds, rfl, hds, rfl⟩
    exact ⟨d, ds, rfl, rfl, hds⟩

theorem spelledOut_append {text rest : CodeText} {cs : List Char} :
    SpelledOut (text ++ rest) cs ↔
      ∃ ds es, SpelledOut text ds ∧ SpelledOut rest es ∧ cs = ds ++ es := by
  rw [SpelledOut, List.map_eq_append_iff]
  constructor
  · rintro ⟨ds, es, rfl, hds, hes⟩
    exact ⟨ds, es, hds, hes, rfl⟩
  · rintro ⟨ds, es, hds, hes, rfl⟩
    exact ⟨ds, es, rfl, hds, hes⟩

theorem spelledOut_map {cs ds : List Char} : SpelledOut (cs.map .char) ds ↔ ds = cs :=
  List.map_inj_right fun _ _ => CodePoint.char.inj

theorem Token.exists_canonAll {ts : List Token}
    (h : ∀ t ∈ ts, ∃ cs, SpelledOut (t.canon config) cs) :
    ∃ cs, SpelledOut (canonAll config ts) cs := by
  induction ts with
  | nil => exact ⟨[], rfl⟩
  | cons t ts ih =>
    obtain ⟨⟨cs, hcs⟩, hrest⟩ := List.forall_mem_cons.1 h
    obtain ⟨ds, hds⟩ := ih hrest
    exact ⟨cs ++ ds, spelledOut_append.2 ⟨cs, ds, hcs, hds, rfl⟩⟩

/-- Tokens that are spelled with characters can be spelled out with characters. -/
theorem Token.spelled_canon (config : Config) :
    Token.Spelled config fun t => ∃ cs, SpelledOut (t.canon config) cs where
  operator {c} _ := ⟨[c], by simp [SpelledOut, canon, CodeText.ofString]⟩
  number h _ _ := by
    have hprefix := Config.roleOf_eq_numberPrefix_iff.1 h
    exact ⟨_, spelledOut_cons.2 ⟨_, _, hprefix, spelledOut_map.2 rfl, rfl⟩⟩
  group h hend _ _ hts := by
    obtain ⟨cs, hcs⟩ := exists_canonAll hts
    have hstart := Config.roleOf_eq_groupStart_iff.1 h
    have hlast := spelledOut_cons.2 ⟨_, [], Config.roleOf_eq_groupEnd_iff.1 hend, rfl, rfl⟩
    have hbehind := spelledOut_append.2 ⟨_, _, hcs, hlast, rfl⟩
    exact ⟨_, spelledOut_cons.2 ⟨_, _, hstart, hbehind, rfl⟩⟩

/-- Where all symbols are characters, so can all well-formed tokens. -/
theorem Token.WellFormed.exists_canon (hchars : config.InCharacters) {t : Token}
    (h : t.WellFormed config) : ∃ cs, SpelledOut (t.canon config) cs := by
  have hspelled := spelled_canon config
  have hrole : ∀ role c, c ∈ config.symbols role → ∃ d : Char, config.roleOf d = some role := by
    intro role c hc
    obtain ⟨d, rfl⟩ := hchars role c hc
    exact ⟨d, Config.roleOf_eq_some_iff.2 hc⟩
  induction h with
  | @number value hpos hmax =>
    obtain ⟨k, rfl⟩ := Int.eq_ofNat_of_zero_le hpos
    obtain ⟨c, hc⟩ := hrole .numberPrefix _ (List.mem_singleton_self _)
    exact hspelled.number hc (Int.ofNat_le.1 hmax)
  | operator hc => exact hspelled.operator (Config.roleOf_eq_operator_iff.2 hc)
  | group hne _ ih =>
    obtain ⟨c, hc⟩ := hrole .groupStart _ (List.mem_singleton_self _)
    obtain ⟨e, he⟩ := hrole .groupEnd _ (List.mem_singleton_self _)
    exact hspelled.group hc he hne ih

/-! ### What is spelled out is spelled -/

/-- No digit comes next. -/
def NoDigit (s : List Char) : Prop := ∀ c ∈ s.head?, Lexer.isDigit c = false

theorem noDigit_nil : NoDigit [] := nofun

theorem noDigit_cons {c : Char} (h : Lexer.isDigit c = false) (s : List Char) :
    NoDigit (c :: s) := by
  intro d hd
  rwa [← Option.some.inj hd]

/-- The text of a token does not lengthen a number before it. -/
theorem Token.WellFormed.noDigit_canon (hfree : config.DigitFree) {t : Token}
    (h : t.WellFormed config) {cs : List Char} (hcs : SpelledOut (t.canon config) cs)
    (s : List Char) : NoDigit (cs ++ s) := by
  cases h with
  | number _ _ =>
    obtain ⟨c, ds, hc, -, rfl⟩ := spelledOut_cons.1 hcs
    exact noDigit_cons (hfree.numberPrefix c hc) _
  | @operator c hc =>
    rw [canon, CodeText.ofString, String.toList_singleton, spelledOut_map] at hcs
    subst hcs
    exact noDigit_cons (hfree.operator c hc) s
  | group _ _ =>
    obtain ⟨c, ds, hc, -, rfl⟩ := spelledOut_cons.1 hcs
    exact noDigit_cons (hfree.groupStart c hc) _

theorem Token.noDigit_canonAll (hfree : config.DigitFree) {ts : List Token}
    (h : ∀ t ∈ ts, t.WellFormed config) {cs : List Char}
    (hcs : SpelledOut (canonAll config ts) cs) {s : List Char} (hs : NoDigit s) :
    NoDigit (cs ++ s) := by
  cases ts with
  | nil =>
    obtain rfl := List.map_eq_nil_iff.1 hcs
    exact hs
  | cons t ts =>
    rw [canonAll] at hcs
    obtain ⟨ds, es, hds, -, rfl⟩ := spelledOut_append.1 hcs
    rw [List.append_assoc]
    exact (h t (List.mem_cons_self ..)).noDigit_canon hfree hds _

/-- A list of tokens is spelled by their texts if each of them is spelled by its text. -/
theorem Spells.canonAll (hfree : config.DigitFree) {n : Nat} {ts : List Token}
    (hwf : ∀ t ∈ ts, t.WellFormed config)
    (h : ∀ t ∈ ts, ∀ cs s, SpelledOut (t.canon config) cs → NoDigit s →
      Spells config (.token t) n .empty (cs ++ s) .empty s)
    {cs : List Char} (hcs : SpelledOut (Token.canonAll config ts) cs) {s : List Char}
    (hs : NoDigit s) : Spells config (.tokens ts) n .empty (cs ++ s) .empty s := by
  induction ts generalizing cs with
  | nil =>
    obtain rfl := List.map_eq_nil_iff.1 hcs
    exact .tokensNil .nothing
  | cons t ts ih =>
    obtain ⟨ht, hts⟩ := List.forall_mem_cons.1 h
    obtain ⟨-, hwf⟩ := List.forall_mem_cons.1 hwf
    rw [Token.canonAll] at hcs
    obtain ⟨ds, es, hds, hes, rfl⟩ := spelledOut_append.1 hcs
    rw [List.append_assoc]
    exact .tokensCons .nothing (ht _ _ hds (Token.noDigit_canonAll hfree hwf hes hs))
      (ih hwf hts hes)

theorem Token.nesting_le_of_mem {t : Token} {ts : List Token} (h : t ∈ ts) :
    t.nesting ≤ nestingAll ts := by
  induction ts with
  | nil => cases h
  | cons u us ih =>
    rw [nestingAll]
    rcases List.mem_cons.1 h with rfl | h
    · exact Nat.le_max_left ..
    · exact Nat.le_trans (ih h) (Nat.le_max_right ..)

/-- A well-formed token is spelled by its text. -/
theorem Spells.canon (hfree : config.DigitFree) {t : Token} (h : t.WellFormed config) {n : Nat}
    (hn : t.nesting ≤ n) {cs s : List Char} (hcs : SpelledOut (t.canon config) cs)
    (hs : NoDigit s) : Spells config (.token t) n .empty (cs ++ s) .empty s := by
  induction h generalizing n cs s with
  | @number value hpos hmax =>
    obtain ⟨k, rfl⟩ := Int.eq_ofNat_of_zero_le hpos
    have hvalue := Lexer.digitsValue_toDigits k
    have hle : Lexer.digitsValue (Nat.toDigits 10 k) ≤ maxNumber := by
      rw [hvalue]
      exact Int.ofNat_le.1 hmax
    obtain ⟨c, ds, hc, hds, rfl⟩ := spelledOut_cons.1 hcs
    obtain rfl : ds = Nat.toDigits 10 k := spelledOut_map.1 hds
    have hrole := Config.roleOf_eq_numberPrefix_iff.2 hc
    have hnumber : Spells config (.token (.number (Lexer.digitsValue (Nat.toDigits 10 k)))) n
        .empty (c :: (Nat.toDigits 10 k ++ s)) .empty s := by
      exact .number ⟨rfl, hrole⟩ Nat.toDigits_ne_nil
        (fun _ => Lexer.isDigit_of_mem_toDigits) hs hle
    rwa [hvalue] at hnumber
  | @operator c hc =>
    rw [Token.canon, CodeText.ofString, String.toList_singleton, spelledOut_map] at hcs
    subst hcs
    exact .operator ⟨rfl, Config.roleOf_eq_operator_iff.2 hc⟩
  | @group ts hne hts ih =>
    rw [Token.nesting] at hn
    obtain ⟨n, rfl⟩ : ∃ k, n = k + 1 := ⟨n - 1, by omega⟩
    rw [Token.canon] at hcs
    obtain ⟨c, ds, hc, hds, rfl⟩ := spelledOut_cons.1 hcs
    obtain ⟨inner, last, hinner, hlast, rfl⟩ := spelledOut_append.1 hds
    obtain ⟨e, es, he, hnil, rfl⟩ := spelledOut_cons.1 hlast
    obtain rfl := List.map_eq_nil_iff.1 hnil
    have hstart := Config.roleOf_eq_groupStart_iff.2 hc
    have hstop := Config.roleOf_eq_groupEnd_iff.2 he
    -- the end of the group comes next, so that its last number ends there
    have hend : NoDigit (e :: s) := noDigit_cons (hfree.groupEnd e he) s
    have htokens : Spells config (.tokens ts) n .empty (inner ++ e :: s) .empty (e :: s) := by
      refine .canonAll hfree hts (fun t ht cs s hcs hs => ih t ht ?_ hcs hs) hinner hend
      have hle := Token.nesting_le_of_mem ht
      omega
    have hgroup := Spells.group ⟨rfl, hstart⟩ hne htokens .abandonedNil ⟨rfl, hstop⟩
    simpa only [List.cons_append, List.append_assoc, List.nil_append] using hgroup

/-- A program of well-formed tokens is spelled by their texts. -/
theorem Spells.canonProgram (hfree : config.DigitFree) {ts : List Token}
    (h : ∀ t ∈ ts, t.WellFormed config) {cs : List Char}
    (hcs : SpelledOut (Token.canonAll config ts) cs) :
    Spells config (.tokens ts) (Token.nestingAll ts) .empty cs .empty [] := by
  have hspells := Spells.canonAll hfree h
    (fun t ht _ _ => Spells.canon hfree (h t ht) (Token.nesting_le_of_mem ht)) hcs noDigit_nil
  rwa [List.append_nil] at hspells

end

/-! ### Preprocessing -/

/-- A lexer on a stream reads what it reads on the same text. -/
theorem tokenize_of_spells {config : Config} {depth n : Nat} {text : List Char} {ts : List Token}
    {m : MacroTable} (h : Spells config (.tokens ts) n .empty text m []) (hn : 2 * n < depth) :
    (tokenize config depth ⟨text, .quiet⟩).1 = .ok ts := by
  have hread := ((Lexer.at_ofStream text).readAll_of_spells h).1 hn
  simp only [tokenize, hread.1]
  rfl

/-- Once the tokens of a program are known, nothing else of it matters. -/
theorem preprocess_ok {config : Config} {depth : Nat} {stream : Stream} {ts : List Token}
    (h : (tokenize config depth stream).1 = .ok ts) (files : Files) (target : Target)
    (lineWidth : Option Int) :
    let done := preprocess files depth (.stream stream) target config lineWidth
    (done.result, done.files, done.target) =
      match lineWidth.filter (· < 1) with
      | some width => (.error (.width width), files, target)
      | none => writeTo files depth ts lineWidth target := by
  cases hwidth : lineWidth.filter (· < 1) with
  | some width => simp only [preprocess, hwidth]
  | none => simp only [preprocess, hwidth, tokenizeFrom, Origin.open?, h]

/-! ### Macros can be eliminated -/

theorem Lexer.readAll_canonAll {config : Config} (hfree : config.DigitFree) {ts : List Token}
    (hts : ∀ t ∈ ts, t.WellFormed config) {canon : List Char}
    (hcanon : SpelledOut (Token.canonAll config ts) canon) {depth : Nat}
    (hdepth : 2 * Token.nestingAll ts < depth) :
    ∃ l, (ofText canon).readAll config depth = (.ok ts, l) ∧ l.macros = .empty := by
  have hspells := Spells.canonProgram hfree hts hcanon
  obtain ⟨hresult, hmacros⟩ := ((at_ofText _).readAll_of_spells hspells).1 hdepth
  exact ⟨_, Prod.ext hresult rfl, hmacros⟩

/-- Well-formed tokens are read from the text that spells them out, which binds no macros, if that
text is one of characters, as it always is where all symbols are characters. For the tokens of a
program it is, and may take the place of the program: it is spelled out by itself, and preprocessing
comes to the same with it, whatever the target and the width of the lines are. Only the readers have
to be enough for both, since macros may stand for more groups inside of each other than their program
has. -/
theorem canonAll_faithful (config : Config) (hfree : config.DigitFree) :
    (∀ ts : List Token, (∀ t ∈ ts, t.WellFormed config) →
      (config.InCharacters → ∃ canon, SpelledOut (Token.canonAll config ts) canon) ∧
      ∀ canon, SpelledOut (Token.canonAll config ts) canon →
        ∀ depth, 2 * Token.nestingAll ts < depth →
          ∃ l, (Lexer.ofText canon).readAll config depth = (.ok ts, l) ∧ l.macros = .empty) ∧
    (∀ text depth ts, ((Lexer.ofText text).readAll config depth).1 = .ok ts →
      ∃ canon, SpelledOut (Token.canonAll config ts) canon ∧
      ∀ depth', 2 * Token.nestingAll ts < depth' →
        (∃ ts' l, (Lexer.ofText canon).readAll config depth' = (.ok ts', l) ∧
          ts' = ts ∧ l.macros = .empty ∧
          Token.canonAll config ts' = Token.canonAll config ts) ∧
        (depth ≤ depth' → ∀ (files : Files) (target : Target) (lineWidth : Option Int),
          let done := preprocess files depth' (.stream ⟨text, .quiet⟩) target config lineWidth
          let again := preprocess files depth' (.stream ⟨canon, .quiet⟩) target config lineWidth
          (again.result, again.files, again.target) = (done.result, done.files, done.target))) := by
  refine ⟨fun ts hts => ⟨fun hchars => ?_, fun canon hcanon depth hdepth => ?_⟩, ?_⟩
  · exact Token.exists_canonAll fun t ht => (hts t ht).exists_canon hchars
  · exact Lexer.readAll_canonAll hfree hts hcanon hdepth
  intro text depth ts hread
  obtain ⟨n, hn, hspells⟩ := (Lexer.at_ofText text).spells hread
  have hts : ∀ t ∈ ts, t.WellFormed config :=
    (hspells.made (Token.spelled_wellFormed config) (MacroTable.wellFormed_empty config)).1
  obtain ⟨canon, hcanon⟩ := Token.exists_canonAll
    (hspells.made (Token.spelled_canon config) nofun).1
  refine ⟨canon, hcanon, fun depth' hdepth' => ⟨?_, ?_⟩⟩
  · obtain ⟨l, hl, hmacros⟩ := Lexer.readAll_canonAll hfree hts hcanon hdepth'
    exact ⟨ts, l, hl, rfl, hmacros, rfl⟩
  · intro hle files target lineWidth
    -- both programs have the same tokens, and nothing else of them is looked at
    have htext := tokenize_of_spells hspells (Nat.lt_of_lt_of_le hn hle)
    have hagain := tokenize_of_spells (Spells.canonProgram hfree hts hcanon) hdepth'
    exact (preprocess_ok hagain files target lineWidth).trans
      (preprocess_ok htext files target lineWidth).symm

/-- A program with a definition, and the same without it. -/
theorem canonAll_faithful_definition :
    let text := ['$', 'a', '(', '#', '2', '+', ')', 'a', '-', 'a']
    let ts : List Token := [.group [.number 2, .operator "+"], .operator "-",
      .group [.number 2, .operator "+"]]
    let canon := ['(', '#', '2', '+', ')', '-', '(', '#', '2', '+', ')']
    Config.standard.DigitFree ∧
    ((Lexer.ofText text).readAll .standard Lexer.nestingLimit).1 = .ok ts ∧
    SpelledOut (Token.canonAll .standard ts) canon ∧
    ∃ l, (Lexer.ofText canon).readAll .standard Lexer.nestingLimit = (.ok ts, l) ∧
      l.macros = .empty := by
  intro text ts canon
  have hoperators : ∀ c : Char, ↑c ∈ Config.standard.operators → Lexer.isDigit c = false := by
    intro c hc
    simp only [Config.standard, List.mem_cons, CodePoint.char.injEq, List.not_mem_nil,
      or_false] at hc
    rcases hc with rfl | rfl | rfl | rfl | rfl | rfl | rfl | rfl <;> rfl
  have hfree : Config.standard.DigitFree := by
    refine ⟨hoperators, ?_, ?_, ?_⟩
    all_goals
      rintro c ⟨⟩
      rfl
  have hread : ((Lexer.ofText text).readAll .standard Lexer.nestingLimit).1 = .ok ts := rfl
  have hdepth : 2 * Token.nestingAll ts < Lexer.nestingLimit := by decide
  obtain ⟨found, hfound, hagain⟩ := (canonAll_faithful .standard hfree).2 text _ ts hread
  obtain rfl : found = canon := spelledOut_map.1 hfound
  obtain ⟨ts', l, hl, rfl, hmacros, -⟩ := (hagain _ hdepth).1
  exact ⟨hfree, hread, hfound, l, hl, hmacros⟩

end Unroll
