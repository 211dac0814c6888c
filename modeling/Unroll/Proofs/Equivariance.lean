import Mathlib.Logic.Equiv.Basic
import Unroll.Proofs.Configurations
import Unroll.Proofs.Output
import Unroll.Proofs.Parallel
import Unroll.Proofs.Running

/-!
# No character is special

Which characters a program is written with does not matter, if only newlines and digits stay what
they are: a renamed program, under the configuration with renamed symbols, has the renamed tokens,
or the same things wrong with it at the same places, and its output is the renamed output. This
holds whatever roles characters have, also newlines and digits.

* `Renaming.source`, `Renaming.lexer` — sources and lexers, renamed;
* `Renaming.parallel` — a lexer and the renamed one correspond;
* `Sink.Renamed`, `Writer.Paired` — a sink is called with renamed texts, and writers come to the
  same with renamed tokens;
* `preprocess_equivariant` — lexing and preprocessing commute with renaming.
-/

namespace Unroll

namespace Renaming

variable (p : Renaming)

/-! ### Sources and lexers -/

/-- The stream of renamed characters. -/
def stream (s : Stream) : Stream := { s with chars := s.chars.map p }

/-- The source of renamed characters. -/
def source (s : Source) : Source := { s with buffer := s.buffer.map p, stream := p.stream s.stream }

/-- The binding with its symbol and body renamed. -/
def binding (b : Binding) : Binding := { b with symbol := p b.symbol, body := p.token b.body }

/-- The lexer that has read, and has left, renamed characters. -/
def lexer (l : Lexer) : Lexer where
  source := p.source l.source
  lookahead := l.lookahead.map p
  position := l.position
  macros := p.macros l.macros
  log := l.log.map p.binding

theorem read_stream (s : Stream) (size : Int) :
    (p.stream s).read size = ((s.read size).1.map (List.map p), p.stream (s.read size).2) := by
  obtain ⟨chars, ending⟩ := s
  simp only [Stream.read, stream]
  split
  · rfl
  · cases chars with
    | nil => cases ending <;> rfl
    | cons c chars =>
      simp only [List.map_cons]
      split
      · rfl
      · rw [← List.map_cons, ← List.map_take, ← List.map_drop]
        rfl

theorem pull_source (s : Source) :
    (p.source s).pull = (p.character s.pull.1, p.source s.pull.2) := by
  obtain ⟨buffer, stream, chunk, reads, finished⟩ := s
  cases buffer with
  | cons c rest => rfl
  | nil =>
    cases finished with
    | true => rfl
    | false =>
      have hread := p.read_stream stream chunk
      rcases hgiven : stream.read chunk with ⟨f | _ | ⟨c, rest⟩, after⟩
      all_goals
        rw [hgiven] at hread
        simp only [Source.pull, source, List.map_nil, hgiven, hread]
        rfl

theorem peek_lexer (l : Lexer) : (p.lexer l).peek = (p.character l.peek.1, p.lexer l.peek.2) := by
  obtain ⟨source, lookahead, position, macros, log⟩ := l
  cases lookahead with
  | some c => rfl
  | none =>
    have hpull := p.pull_source source
    rcases hgiven : source.pull with ⟨f | c, after⟩
    all_goals
      rw [hgiven] at hpull
      simp only [Lexer.peek, lexer, Option.map_none, hgiven, hpull]
      rfl

theorem size_source (s : Source) : (p.source s).size = s.size := by
  simp [Source.size, source, stream]

theorem steps_lexer (l : Lexer) : (p.lexer l).steps = l.steps := by
  obtain ⟨source, lookahead, position, macros, log⟩ := l
  cases lookahead <;> simp [Lexer.steps, Lexer.remaining, lexer, size_source]

/-- A lexer and the renamed one correspond. -/
theorem parallel (config : Config) :
    Lexer.Parallel p config (p.config config) (fun l l' => l' = p.lexer l) where
  role := p.roleOf_config config
  steps := by
    rintro l _ rfl
    exact p.steps_lexer l
  position := by
    rintro l _ rfl
    rfl
  lookup := by
    rintro l _ rfl c
    exact p.lookup_macros l.macros c
  peek := by
    rintro l _ rfl
    rw [p.peek_lexer l]
    exact ⟨rfl, rfl⟩
  consume := by
    rintro l _ l₁ l₁' c rfl hpeek hpeek'
    rw [p.peek_lexer l, hpeek] at hpeek'
    obtain rfl := (Prod.mk.inj hpeek').2
    simp [Lexer.consume, lexer]
  bindMacro := by
    rintro l _ rfl symbol body
    simp only [Lexer.bindMacro, lexer, macros_bind]
    rfl

end Renaming

/-! ### Sinks and writers -/

/-- A sink has been called, and has received, with the renamed texts of another one, and refuses the
renamed texts that the other one refuses. -/
structure Sink.Renamed (p : Renaming) (sink sink' : Sink) : Prop where
  refuses (count : Nat) (text : String) :
    sink'.refuses count (p.text text) = sink.refuses count text
  calls : sink'.calls = sink.calls.map p.text
  received : sink'.received = sink.received.map p.text

namespace Sink

variable {p : Renaming} {sink sink' : Sink}

theorem renamed_unlimited (p : Renaming) : unlimited.Renamed p unlimited :=
  ⟨fun _ _ => rfl, rfl, rfl⟩

theorem Renamed.count (h : sink.Renamed p sink') : sink'.count = sink.count := by
  rw [sink'.counted, sink.counted, h.calls, List.length_map]

theorem Renamed.output (h : sink.Renamed p sink') : sink'.output = p.text sink.output := by
  rw [Sink.output, Sink.output, h.received, p.text_join, List.map_reverse]

theorem Renamed.write (h : sink.Renamed p sink') (text : String) :
    (sink'.write (p.text text)).1 = (sink.write text).1 ∧
      (sink.write text).2.Renamed p (sink'.write (p.text text)).2 := by
  have hrefuses : sink'.refuses sink'.count (p.text text) = sink.refuses sink.count text := by
    rw [h.count, h.refuses]
  simp only [Sink.write, hrefuses]
  cases sink.refuses sink.count text with
  | some f =>
    refine ⟨rfl, h.refuses, ?_, h.received⟩
    simp only [h.calls, List.map_cons]
  | none =>
    refine ⟨rfl, h.refuses, ?_, ?_⟩
    · simp only [h.calls, List.map_cons]
    · simp only [h.received, List.map_cons]

end Sink

namespace Writer

/-- Two writers count alike, and the sink of one is that of the other, renamed. -/
structure Renamed (p : Renaming) (w w' : Writer) : Prop where
  sink : w.sink.Renamed p w'.sink
  counter : w'.counter = w.counter

/-- Two writers have come to the same, one of them with renamed texts. -/
structure Paired (p : Renaming) (written written' : Except Failure Unit × Writer) : Prop where
  result : written'.1 = written.1
  writers : written.2.Renamed p written'.2

variable {p : Renaming} {w w' : Writer}

theorem Paired.exists {result : Except Failure Unit} {written' : Except Failure Unit × Writer}
    (h : Paired p (result, w) written') : ∃ w', written' = (result, w') ∧ w.Renamed p w' :=
  ⟨written'.2, Prod.ext h.result rfl, h.writers⟩

theorem Renamed.put (h : w.Renamed p w') (text : String) :
    Paired p (w.put text) (w'.put (p.text text)) := by
  obtain ⟨hresult, hafter⟩ := h.sink.write text
  rcases hwrite : w.sink.write text with ⟨f | _, after⟩
  all_goals
    rw [hwrite] at hresult hafter
    rcases hwrite' : w'.sink.write (p.text text) with ⟨result, after'⟩
    rw [hwrite'] at hresult hafter
    obtain rfl := hresult
    simp only [Writer.put, hwrite, hwrite']
    exact ⟨rfl, hafter, h.counter⟩

theorem Renamed.advance (h : w.Renamed p w') (counter : LineCounter) :
    Paired p (w.advance counter) (w'.advance counter) := by
  let counted (w : Writer) : Writer :=
    { w with counter := some { counter with length := counter.length + 1 } }
  have hcounted : (counted w).Renamed p (counted w') := ⟨h.sink, rfl⟩
  have hended := hcounted.put "\n"
  rw [p.text_newline] at hended
  rw [Writer.advance, Writer.advance]
  split
  · rcases hput : (counted w).put "\n" with ⟨e | _, after⟩
    all_goals
      rw [hput] at hended
      obtain ⟨after', hput', hafter⟩ := hended.exists
      simp only [counted] at hput'
      simp only [hput']
    · exact ⟨rfl, hafter⟩
    · exact ⟨rfl, hafter.sink, rfl⟩
  · exact ⟨rfl, hcounted⟩

theorem Renamed.putOperator (h : w.Renamed p w') (symbol : String) :
    Paired p (w.putOperator symbol) (w'.putOperator (p.text symbol)) := by
  have hwritten := h.put symbol
  rcases hput : w.put symbol with ⟨e | _, after⟩
  all_goals
    rw [hput] at hwritten
    obtain ⟨after', hput', hafter⟩ := hwritten.exists
    simp only [Writer.putOperator, hput, hput', hafter.counter]
  · exact ⟨rfl, hafter⟩
  · cases after.counter with
    | none => exact ⟨rfl, hafter⟩
    | some counter => exact hafter.advance counter

theorem Renamed.repeated {act act' : Writer → Except Failure Unit × Writer}
    (hact : ∀ w w' : Writer, w.Renamed p w' → Paired p (act w) (act' w')) (times : Nat)
    (h : w.Renamed p w') : Paired p (repeated act times w) (repeated act' times w') := by
  induction times generalizing w w' with
  | zero => exact ⟨rfl, h⟩
  | succ times ih =>
    have hdone := hact w w' h
    rcases hone : act w with ⟨e | _, after⟩
    all_goals
      rw [hone] at hdone
      obtain ⟨after', hone', hafter⟩ := hdone.exists
      simp only [Writer.repeated, hone, hone']
    · exact ⟨rfl, hafter⟩
    · exact ih hafter

/-- Tokens are written alike if each of them is. -/
theorem Renamed.writeTokens {ts : List Token}
    (hts : ∀ t ∈ ts, ∀ (depth times : Nat) (w w' : Writer), w.Renamed p w' →
      Paired p (writeToken t depth times w) (writeToken (p.token t) depth times w'))
    (depth : Nat) (multiplier : Int) (h : w.Renamed p w') :
    Paired p (writeTokens ts depth multiplier w)
      (writeTokens (ts.map p.token) depth multiplier w') := by
  induction ts generalizing multiplier w w' with
  | nil => exact ⟨by simp only [Unroll.writeTokens, List.map_nil], h⟩
  | cons t ts ih =>
    obtain ⟨ht, hrest⟩ := List.forall_mem_cons.1 hts
    rw [List.map_cons]
    obtain ⟨n, rfl⟩ | hne := t.number_or
    · rw [Renaming.token, Unroll.writeTokens, Unroll.writeTokens]
      exact ih hrest n h
    · have hne' : ∀ n, p.token t ≠ .number n := by
        cases t with
        | number n => exact absurd rfl (hne n)
        | operator _ | group _ | foreign _ =>
          intro n hn
          cases hn
      have hhead := ht depth multiplier.toNat w w' h
      rcases hdone : writeToken t depth multiplier.toNat w with ⟨e | _, after⟩
      all_goals
        rw [hdone] at hhead
        obtain ⟨after', hdone', hafter⟩ := hhead.exists
      · rw [(writeTokens_cons hne ts depth multiplier w).2 e after hdone,
          (writeTokens_cons hne' _ depth multiplier w').2 e after' hdone']
        exact ⟨rfl, hafter⟩
      · rw [(writeTokens_cons hne ts depth multiplier w).1 after hdone,
          (writeTokens_cons hne' _ depth multiplier w').1 after' hdone']
        exact ih hrest 1 hafter

/-- A renamed token is written as the token is. -/
theorem Renamed.writeToken {t : Token} (ht : t.Genuine) :
    ∀ (depth times : Nat) (w w' : Writer), w.Renamed p w' →
      Paired p (writeToken t depth times w) (writeToken (p.token t) depth times w') := by
  induction ht with
  | number n =>
    intro depth times w w' h
    exact ⟨by simp only [Renaming.token, Unroll.writeToken], h⟩
  | operator symbol =>
    intro depth times w w' h
    rw [Renaming.token, Unroll.writeToken, Unroll.writeToken]
    exact h.repeated (fun _ _ h => h.putOperator symbol) times
  | group _ ih =>
    intro depth times w w' h
    rw [Renaming.token_group]
    cases depth with
    | zero =>
      rw [Unroll.writeToken, Unroll.writeToken]
      refine h.repeated (fun w w' h => ?_) times
      exact ⟨rfl, h⟩
    | succ depth =>
      rw [Unroll.writeToken, Unroll.writeToken]
      exact h.repeated (fun _ _ h => h.writeTokens ih depth 1) times

end Writer

/-! ### Preprocessing -/

section

variable {p : Renaming} {ts : List Token}

/-- A result of preprocessing with all symbols renamed. -/
def Renaming.outcome {α β : Type} (p : Renaming) (f : α → β) : Except Failure α → Except Failure β
  | .ok a => .ok (f a)
  | .error e => .error (p.failure e)

/-- Nothing that can go wrong with writing has symbols in it. -/
theorem Renaming.failure_ofWrite (p : Renaming) (e : WriteFailure) :
    p.failure (.ofWrite e) = .ofWrite e := by
  cases e with
  | width n => rfl
  | writer e =>
    cases e with
    | output f =>
      simp only [Failure.ofWrite, Failure.ofWriter, Failure.ofOutput]
      split <;> rfl
    | foreign v => rfl
    | tooDeep => rfl

theorem Renaming.outcome_ofWrite (p : Renaming) (result : Except WriteFailure Unit) :
    p.outcome id (result.mapError .ofWrite) = result.mapError .ofWrite := by
  cases result with
  | ok _ => rfl
  | error e => exact congrArg Except.error (p.failure_ofWrite e)

theorem tokenize_equivariant (p : Renaming) (config : Config) (depth : Nat) (stream : Stream) :
    (tokenize (p.config config) depth (p.stream stream)).1 =
      p.outcome (List.map p.token) (tokenize config depth stream).1 := by
  have hread := (p.parallel config).readAll depth
    (l := Lexer.ofSource (.ofStream stream Source.chunkSize)) rfl
  have hresult := hread.result
  have hstart : p.lexer (Lexer.ofSource (.ofStream stream Source.chunkSize)) =
    Lexer.ofSource (.ofStream (p.stream stream) Source.chunkSize) := rfl
  rw [hstart] at hresult
  simp only [tokenize, hresult]
  rcases (Lexer.readAll config depth (Lexer.ofSource (.ofStream stream Source.chunkSize))).1 with
    e | ts
  · exact congrArg Except.error (p.ofLexer_refusal e)
  · rfl

theorem writeAll_equivariant (hts : ∀ t ∈ ts, t.Genuine) (depth : Nat) (lineWidth : Option Int)
    {sink sink' : Sink} (hsink : sink.Renamed p sink') :
    (writeAll depth (ts.map p.token) lineWidth sink').1 =
        (writeAll depth ts lineWidth sink).1 ∧
      (writeAll depth ts lineWidth sink).2.Renamed p
        (writeAll depth (ts.map p.token) lineWidth sink').2 := by
  have hpaired : ∀ counter : Option LineCounter,
      Writer.Paired p (writeTokens ts depth 1 ⟨sink, counter⟩)
        (writeTokens (ts.map p.token) depth 1 ⟨sink', counter⟩) := by
    intro counter
    have hw : Writer.Renamed p ⟨sink, counter⟩ ⟨sink', counter⟩ := ⟨hsink, rfl⟩
    exact hw.writeTokens (fun t ht => Writer.Renamed.writeToken (hts t ht)) depth 1
  cases lineWidth with
  | none =>
    exact ⟨congrArg (Except.mapError WriteFailure.writer) (hpaired none).result,
      (hpaired none).writers.sink⟩
  | some width =>
    simp only [writeAll]
    cases LineCounter.ofWidth? width with
    | none => exact ⟨rfl, hsink⟩
    | some counter =>
      exact ⟨congrArg (Except.mapError WriteFailure.writer) (hpaired (some counter)).result,
        (hpaired (some counter)).writers.sink⟩

theorem tokenizeFrom_equivariant (p : Renaming) (files : Files) (config : Config) (depth : Nat)
    (stream : Stream) :
    (tokenizeFrom files (p.config config) depth (.stream (p.stream stream))).1 =
      p.outcome (List.map p.token) (tokenizeFrom files config depth (.stream stream)).1 :=
  tokenize_equivariant p config depth stream

/-- Preprocessing comes to the same, and a sink is called with the renamed texts. -/
theorem preprocess_sink_equivariant (files : Files) (depth : Nat) (stream : Stream)
    (config : Config) (lineWidth : Option Int) {sink sink' : Sink} (hsink : sink.Renamed p sink') :
    (preprocess files depth (.stream (p.stream stream)) (.sink sink') (p.config config)
        lineWidth).result =
      p.outcome id (preprocess files depth (.stream stream) (.sink sink) config lineWidth).result ∧
    ∃ after after',
      (preprocess files depth (.stream stream) (.sink sink) config lineWidth).target =
        .sink after ∧
      (preprocess files depth (.stream (p.stream stream)) (.sink sink') (p.config config)
        lineWidth).target = .sink after' ∧
      after.Renamed p after' := by
  rcases widthOk_or lineWidth with ⟨width, rfl, hlt⟩ | hwidth
  · rw [preprocess_of_width hlt, preprocess_of_width hlt]
    exact ⟨rfl, sink, sink', rfl, rfl, hsink⟩
  have hsame := tokenizeFrom_equivariant p files config depth stream
  rcases hread : (tokenizeFrom files config depth (.stream stream)).1 with e | ts
  · rw [hread] at hsame
    obtain ⟨hresult, -, htarget⟩ := preprocess_of_error hwidth hread (.sink sink)
    obtain ⟨hresult', -, htarget'⟩ := preprocess_of_error hwidth hsame (.sink sink')
    rw [hresult, hresult', htarget, htarget']
    exact ⟨rfl, sink, sink', rfl, rfl, hsink⟩
  · rw [hread] at hsame
    have hwrite := preprocess_of_tokens hwidth hread (.sink sink)
    have hwrite' := preprocess_of_tokens hwidth hsame (.sink sink')
    obtain ⟨hresult, hafter⟩ := writeAll_equivariant (tokenizeFrom_genuine hread) depth lineWidth
      hsink
    simp only [writeTo, hresult, Prod.mk.injEq] at hwrite hwrite'
    rw [hwrite.1, hwrite'.1, hwrite.2.2, hwrite'.2.2]
    exact ⟨(p.outcome_ofWrite _).symm, _, _, rfl, rfl, hafter⟩

/-- Preprocessing comes to the same, and the renamed text is written to a file. -/
theorem preprocess_file_equivariant (p : Renaming) (files : Files) (depth : Nat) (stream : Stream)
    (config : Config) (lineWidth : Option Int) (path : String) :
    (preprocess files depth (.stream (p.stream stream)) (.file path) (p.config config)
        lineWidth).result =
      p.outcome id (preprocess files depth (.stream stream) (.file path) config lineWidth).result ∧
    ((preprocess files depth (.stream stream) (.file path) config lineWidth).files = files ∧
      (preprocess files depth (.stream (p.stream stream)) (.file path) (p.config config)
        lineWidth).files = files ∨
    ∃ opened text, files.create path = .ok opened ∧
      (preprocess files depth (.stream stream) (.file path) config lineWidth).files =
        opened.2.store opened.1 text ∧
      (preprocess files depth (.stream (p.stream stream)) (.file path) (p.config config)
        lineWidth).files = opened.2.store opened.1 (p.text text)) := by
  rcases widthOk_or lineWidth with ⟨width, rfl, hlt⟩ | hwidth
  · rw [preprocess_of_width hlt, preprocess_of_width hlt]
    exact ⟨rfl, .inl ⟨rfl, rfl⟩⟩
  have hsame := tokenizeFrom_equivariant p files config depth stream
  rcases hread : (tokenizeFrom files config depth (.stream stream)).1 with e | ts
  · rw [hread] at hsame
    obtain ⟨hresult, hfiles, -⟩ := preprocess_of_error hwidth hread (.file path)
    obtain ⟨hresult', hfiles', -⟩ := preprocess_of_error hwidth hsame (.file path)
    rw [hresult, hresult', hfiles, hfiles']
    exact ⟨rfl, .inl ⟨rfl, rfl⟩⟩
  · rw [hread] at hsame
    have hwrite := preprocess_of_tokens hwidth hread (.file path)
    have hwrite' := preprocess_of_tokens hwidth hsame (.file path)
    obtain ⟨hresult, hafter⟩ := writeAll_equivariant (tokenizeFrom_genuine hread) depth lineWidth
      (Sink.renamed_unlimited p)
    rcases hcreate : files.create path with f | ⟨place, opened⟩
    · simp only [writeTo, hcreate, Prod.mk.injEq] at hwrite hwrite'
      rw [hwrite.1, hwrite'.1, hwrite.2.1, hwrite'.2.1]
      exact ⟨rfl, .inl ⟨rfl, rfl⟩⟩
    · simp only [writeTo, hcreate, hresult, hafter.output, Prod.mk.injEq] at hwrite hwrite'
      rw [hwrite.1, hwrite'.1, hwrite.2.1, hwrite'.2.1]
      exact ⟨(p.outcome_ofWrite _).symm, .inr ⟨(place, opened), _, rfl, rfl, rfl⟩⟩

end

/-- For every renaming of characters that keeps them apart and keeps newlines and digits: the
renamed configuration is valid. With it, the renamed text gives the renamed tokens, or the same
diagnostics in the same order at the same positions, with the same digits and renamed symbols; it
ends at the same position with the renamed macros, also if the text ends with a fault. What is
written for it to a sink, a refusing one too, or to a file is the renamed output, in lines of any
width. -/
theorem preprocess_equivariant (p : Renaming) (config : Config) (depth : Nat) :
    Config.ofSettings (.ofConfig (p.config config)) = .ok (p.config config) ∧
    (∀ (text : List Char) (ending : Ending),
      let read := (Lexer.ofSource (.ofText text ending)).readAll config depth
      let read' := (Lexer.ofSource (.ofText (text.map p) ending)).readAll (p.config config) depth
      read'.1 = p.result (List.map p.token) read.1 ∧ read'.2.position = read.2.position ∧
        read'.2.macros = p.macros read.2.macros) ∧
    (∀ (files : Files) (stream : Stream) (lineWidth : Option Int) (sink sink' : Sink),
      sink.Renamed p sink' →
      let done := preprocess files depth (.stream stream) (.sink sink) config lineWidth
      let done' :=
        preprocess files depth (.stream (p.stream stream)) (.sink sink') (p.config config) lineWidth
      done'.result = p.outcome id done.result ∧
        ∃ after after', done.target = .sink after ∧ done'.target = .sink after' ∧
          after.Renamed p after' ∧ after'.output = p.text after.output) ∧
    (∀ (files : Files) (stream : Stream) (lineWidth : Option Int) (path : String),
      let done := preprocess files depth (.stream stream) (.file path) config lineWidth
      let done' :=
        preprocess files depth (.stream (p.stream stream)) (.file path) (p.config config) lineWidth
      done'.result = p.outcome id done.result ∧
        (done.files = files ∧ done'.files = files ∨
          ∃ opened text, files.create path = .ok opened ∧
            done.files = opened.2.store opened.1 text ∧
            done'.files = opened.2.store opened.1 (p.text text))) := by
  refine ⟨Config.ofSettings_ofConfig _, fun text ending => ?_,
    fun files stream lineWidth sink sink' hsink => ?_, fun files stream lineWidth path => ?_⟩
  · obtain ⟨hresult, hlexer⟩ := (p.parallel config).readAll depth
      (l := Lexer.ofSource (.ofText text ending)) rfl
    have hstart : p.lexer (Lexer.ofSource (.ofText text ending)) =
      Lexer.ofSource (.ofText (text.map p) ending) := rfl
    rw [hstart] at hresult hlexer
    exact ⟨hresult, by rw [hlexer]; rfl, by rw [hlexer]; rfl⟩
  · obtain ⟨hresult, after, after', htarget, htarget', hafter⟩ :=
      preprocess_sink_equivariant files depth stream config lineWidth hsink
    exact ⟨hresult, after, after', htarget, htarget', hafter, hafter.output⟩
  · exact preprocess_file_equivariant p files depth stream config lineWidth path

/-! ### A newline and a digit with roles -/

/-- Two characters are exchanged. -/
def Renaming.exchange : Renaming where
  toFun := Equiv.swap '+' 'x'
  injective := (Equiv.swap '+' 'x').injective
  newline := by decide
  digit {c} h := by
    refine Equiv.swap_apply_of_ne_of_ne ?_ ?_
    · rintro rfl
      exact absurd h (by decide)
    · rintro rfl
      exact absurd h (by decide)

/-- A newline is the prefix of macros, and a digit begins groups. -/
def Config.unusual : Config where
  operators := ['+', '7']
  groupStart := '5'
  groupEnd := ')'
  numberPrefix := '#'
  macroPrefix := '\n'
  escapePrefix := '\\'
  nodup := by decide

/-- A program that binds a symbol by a newline, and has a group that begins with a digit, with a
sink that refuses the fourth text. -/
theorem preprocess_equivariant_unusual :
    let p := Renaming.exchange
    let sink := Sink.failingAfter 3 (.system "full")
    let program (a : Char) : Stream := ⟨['\n', a, '5', '7', a, ')', '#', '2', a], .quiet⟩
    let done := preprocess .empty Lexer.nestingLimit (.stream (program '+')) (.sink sink) .unusual
      (some 2)
    let done' := preprocess .empty Lexer.nestingLimit (.stream (program 'x')) (.sink sink)
      (p.config .unusual) (some 2)
    sink.Renamed p sink ∧ done'.result = p.outcome id done.result ∧
      ∃ after after', done.target = .sink after ∧ done'.target = .sink after' ∧
        after.Renamed p after' ∧ after'.output = p.text after.output := by
  intro p sink program done done'
  have hsink : sink.Renamed p sink := ⟨fun _ _ => rfl, rfl, rfl⟩
  exact ⟨hsink, (preprocess_equivariant p .unusual Lexer.nestingLimit).2.2.1 .empty (program '+')
    (some 2) sink sink hsink⟩

end Unroll
