import Unroll.Preprocess
import Unroll.Proofs.Expansion
import Unroll.Proofs.Gathering
import Unroll.Proofs.WellFormed

/-!
# The output of a program

The tokens of a program, which are all genuine, are written to a fresh line as one text.

* `Token.calls`, `Token.text` — the calls that write tokens, and the text that they come to;
* `writeAll_eq` — a sink that takes everything is given this text;
* `tokenizeFrom_genuine`, `tokenizeFrom_error_text` — what is known of the tokens of a program, and
  of the errors that are met while it is read.
-/

namespace Unroll

/-! ### Texts -/

namespace Token

/-- The calls that write tokens to a fresh line, in lines of the given width if there is one. -/
def calls (lineWidth : Option Int) (ts : List Token) : List String :=
  match lineWidth with
  | none => expandAll ts 1
  | some width => LineCounter.wrapped ⟨width.toNat, 0⟩ (expandAll ts 1)

/-- The text that is written for tokens. -/
def text (lineWidth : Option Int) (ts : List Token) : String := String.join (calls lineWidth ts)

/-- Well-formed tokens are tokens, all the way down. -/
theorem WellFormed.genuine {config : Config} {t : Token} (h : t.WellFormed config) :
    t.Genuine := by
  induction h with
  | number _ _ => exact .number _
  | operator _ => exact .operator _
  | group _ _ ih => exact .group ih

end Token

theorem Sink.output_after (sink : Sink) (texts : List String) :
    (sink.after texts).output = sink.output ++ String.join texts := by
  rw [output, output, after, List.reverse_append, List.reverse_reverse, String.join_append]

theorem Sink.output_ofRule (refuses : Nat → String → Option Fault) :
    (Sink.ofRule refuses).output = "" := rfl

theorem Sink.unlimited_accepts : Sink.unlimited.Accepts := fun _ _ => rfl

/-- No width is too small for a line. -/
def WidthOk (lineWidth : Option Int) : Prop := ∀ width, lineWidth = some width → 1 ≤ width

/-- Tokens are written to a fresh line as the text that they come to, unless too many groups would
be written inside of each other. -/
theorem writeAll_eq {ts : List Token} (hts : ∀ t ∈ ts, t.Genuine) {lineWidth : Option Int}
    (hwidth : WidthOk lineWidth) {sink : Sink} (hsink : sink.Accepts) (depth : Nat) :
    (Token.levelsAll ts 1 ≤ depth →
      writeAll depth ts lineWidth sink = (.ok (), sink.after (Token.calls lineWidth ts))) ∧
    (depth < Token.levelsAll ts 1 →
      (writeAll depth ts lineWidth sink).1 = .error (.writer .tooDeep)) := by
  have hwrites : ∀ t ∈ ts, t.Writes := fun t ht => (hts t ht).writes
  cases lineWidth with
  | none =>
    have hready : (⟨sink, none⟩ : Writer).Ready := ⟨hsink, by simp⟩
    obtain ⟨hok, hdeep⟩ := writeTokens_eq hwrites depth 1 hready
    refine ⟨fun hle => ?_, fun hlt => ?_⟩
    · simp only [writeAll, hok hle]
      rfl
    · simp only [writeAll, hdeep hlt]
      rfl
  | some width =>
    have hpos := hwidth width rfl
    have hcounter : LineCounter.ofWidth? width = some ⟨width.toNat, 0⟩ := by
      rw [LineCounter.ofWidth?, if_neg (by omega)]
    have hready : (⟨sink, some ⟨width.toNat, 0⟩⟩ : Writer).Ready := by
      refine ⟨hsink, fun counter hcounter => ?_⟩
      obtain rfl := Option.some.inj hcounter
      simp only
      omega
    obtain ⟨hok, hdeep⟩ := writeTokens_eq hwrites depth 1 hready
    refine ⟨fun hle => ?_, fun hlt => ?_⟩
    · simp only [writeAll, hcounter, hok hle]
      rfl
    · simp only [writeAll, hcounter, hdeep hlt]
      rfl

/-- The sink after a text was written to it. -/
theorem Token.output_after (lineWidth : Option Int) (ts : List Token)
    (refuses : Nat → String → Option Fault) :
    ((Sink.ofRule refuses).after (Token.calls lineWidth ts)).output = Token.text lineWidth ts := by
  rw [Sink.output_after, Sink.output_ofRule, String.empty_append]
  rfl

/-! ### Programs -/

/-- The tokens of a program are well-formed, whatever its stream does later. -/
theorem tokenize_wellFormed {config : Config} {depth : Nat} {stream : Stream} {ts : List Token}
    (h : (tokenize config depth stream).1 = .ok ts) : ∀ t ∈ ts, t.WellFormed config := by
  have hkept := Lexer.kept_readAll config depth (.ofStream stream Source.chunkSize)
  rcases hread : (Lexer.ofSource (.ofStream stream Source.chunkSize)).readAll config depth with
    ⟨e | ts', l⟩
  · simp only [tokenize, hread] at h
    cases h
  · simp only [tokenize, hread] at h
    obtain rfl := Except.ok.inj h
    rw [hread] at hkept
    exact hkept.made rfl

theorem tokenizeFrom_wellFormed {files : Files} {config : Config} {depth : Nat} {origin : Origin}
    {ts : List Token} (h : (tokenizeFrom files config depth origin).1 = .ok ts) :
    ∀ t ∈ ts, t.WellFormed config := by
  rw [tokenizeFrom] at h
  split at h
  · cases h
  · exact tokenize_wellFormed h

/-- The tokens of a program are genuine, as all well-formed tokens are. -/
theorem tokenizeFrom_genuine {files : Files} {config : Config} {depth : Nat} {origin : Origin}
    {ts : List Token} (h : (tokenizeFrom files config depth origin).1 = .ok ts) :
    ∀ t ∈ ts, t.Genuine :=
  fun t ht => (tokenizeFrom_wellFormed h t ht).genuine

/-! ### Errors -/

theorem Lexer.Noted.ne_unspecified {config : Config} {problem : Problem}
    (h : Lexer.Noted config problem) : problem ≠ .unspecified := by
  rintro rfl
  cases h

/-- There is something to say about every rejection of a reader. -/
theorem Rejection.text_of_noted {config : Config} {r : Rejection}
    (h : ∀ d ∈ r.diagnostics, Lexer.Noted config d.problem) : ∃ text, r.text? = some text := by
  have hone : ∀ d ∈ r.diagnostics, ∃ text, d.text? = some text :=
    fun d hd => Diagnostic.exists_text (h d hd).ne_unspecified
  cases r with
  | diagnostic d => exact hone d (List.mem_singleton.2 rfl)
  | report r =>
    obtain ⟨texts, -, htext⟩ := Report.exists_texts hone
    exact ⟨_, htext⟩

/-- There is something to say about every error that is met while a program is read. -/
theorem tokenize_error_text {config : Config} {depth : Nat} {stream : Stream} {e : Error}
    (h : (tokenize config depth stream).1 = .error (.error e)) : ∃ text, e.text? = some text := by
  have hkept := Lexer.kept_readAll config depth (.ofStream stream Source.chunkSize)
  rcases hread : (Lexer.ofSource (.ofStream stream Source.chunkSize)).readAll config depth with
    ⟨(r | f | _) | ts, l⟩
  · simp only [tokenize, hread] at h
    obtain rfl := Failure.error.inj (Except.error.inj h)
    rw [hread] at hkept
    exact Rejection.text_of_noted (hkept.found rfl)
  · simp only [tokenize, hread] at h
    have hinput := Except.error.inj h
    rw [Failure.ofLexer, Failure.ofInput] at hinput
    split at hinput
    · obtain rfl := Failure.error.inj hinput
      exact ⟨_, rfl⟩
    · cases hinput
  · simp only [tokenize, hread] at h
    obtain rfl := Failure.error.inj (Except.error.inj h)
    exact ⟨_, rfl⟩
  · simp only [tokenize, hread] at h
    cases h

theorem tokenizeFrom_error_text {files : Files} {config : Config} {depth : Nat} {origin : Origin}
    {e : Error} (h : (tokenizeFrom files config depth origin).1 = .error (.error e)) :
    ∃ text, e.text? = some text := by
  rw [tokenizeFrom] at h
  split at h
  · cases h
  · exact tokenize_error_text h

end Unroll
