import Unroll.Proofs.Running

/-!
# What writers keep

All that a writer does is to write the operators of its tokens and the ends of lines, and to count
operators, whether its sink takes them or not. What these keep, writing keeps, to whatever end it
comes.

* `Token.Over` — the operators of a token are texts of a kind, and nothing in it is no token;
* `Writer.Keeps`, `Writer.Keeps.writeTokens` — what writing operators and counting them keep;
* `Sink.Gained`, `Sink.Fails` — a sink has been given texts of a kind only, and what writing to it
  fails of;
* `writeAll_gained`, `writeTo_given`, `preprocess_given` — nothing else comes to the destination of
  tokens and of programs.
-/

namespace Unroll

/-- The operators in a token are texts of a kind at every depth, and nothing in it is no token. -/
inductive Token.Over (Kind : String → Prop) : Token → Prop where
  | number (n : Int) : Over Kind (.number n)
  | operator {symbol : String} (h : Kind symbol) : Over Kind (.operator symbol)
  | group {ts : List Token} (h : ∀ t ∈ ts, Over Kind t) : Over Kind (.group ts)

/-- The operators of a well-formed token are those of the configuration. -/
theorem Token.WellFormed.over {config : Config} {Kind : String → Prop}
    (hkind : ∀ c : Char, ↑c ∈ config.operators → Kind (String.singleton c)) {t : Token}
    (h : t.WellFormed config) : t.Over Kind := by
  induction h with
  | number _ _ => exact .number _
  | operator h => exact .operator (hkind _ h)
  | group _ _ ih => exact .group ih

/-! ### Writers -/

namespace Writer

/-- The writer that is left has a property, and writing has failed in an allowed way if at all. -/
structure Kept (State : Writer → Prop) (Fails : Failure → Prop)
    (written : Except Failure Unit × Writer) : Prop where
  state : State written.2
  fails {e : Failure} (h : written.1 = .error e) : Fails e

/-- A property of writers that is kept by writing texts of a kind, and by counting an operator,
with the ways in which these may fail. Writing may always find groups nested too deeply. -/
structure Keeps (State : Writer → Prop) (Kind : String → Prop) (Fails : Failure → Prop) :
    Prop where
  put {w : Writer} {text : String} (h : State w) (htext : Kind text) :
    Kept State Fails (w.put text)
  advance {w : Writer} {counter : LineCounter} (h : State w) (hcounter : w.counter = some counter) :
    Kept State Fails (w.advance counter)
  tooDeep : Fails .tooDeep

section

variable {State : Writer → Prop} {Kind : String → Prop} {Fails : Failure → Prop} {w : Writer}

theorem Kept.ok (h : State w) : Kept State Fails (.ok (), w) where
  state := h
  fails he := by cases he

theorem Kept.genuine {written : Except Failure Unit × Writer}
    (h : Kept State (fun e => ∀ v, e ≠ .foreign v) written) (v : Json.Value) :
    written.1 ≠ .error (.foreign v) :=
  fun he => h.fails he v rfl

theorem Keeps.putOperator (h : Keeps State Kind Fails) (hw : State w) {symbol : String}
    (hsymbol : Kind symbol) : Kept State Fails (w.putOperator symbol) := by
  have hput := h.put hw hsymbol
  rcases hwrite : w.put symbol with ⟨e | _, w'⟩
  · rw [hwrite] at hput
    simp only [Writer.putOperator, hwrite]
    exact ⟨hput.state, fun he => hput.fails he⟩
  · rw [hwrite] at hput
    rcases hcounter : w'.counter with _ | counter
    · simp only [Writer.putOperator, hwrite, hcounter]
      exact .ok hput.state
    · simp only [Writer.putOperator, hwrite, hcounter]
      exact h.advance hput.state hcounter

theorem Kept.repeated {act : Writer → Except Failure Unit × Writer}
    (hact : ∀ w, State w → Kept State Fails (act w)) (times : Nat) (hw : State w) :
    Kept State Fails (repeated act times w) := by
  induction times generalizing w with
  | zero => exact .ok hw
  | succ times ih =>
    have hone := hact w hw
    rcases hdone : act w with ⟨e | _, w'⟩
    · rw [hdone] at hone
      simp only [Writer.repeated, hdone]
      exact hone
    · rw [hdone] at hone
      simp only [Writer.repeated, hdone]
      exact ih hone.state

/-- Tokens keep the property if each of them does. -/
theorem Kept.writeTokens {ts : List Token}
    (h : ∀ t ∈ ts, ∀ (depth times : Nat) (w : Writer), State w →
      Kept State Fails (writeToken t depth times w))
    (depth : Nat) (multiplier : Int) (hw : State w) :
    Kept State Fails (writeTokens ts depth multiplier w) := by
  induction ts generalizing multiplier w with
  | nil =>
    rw [Unroll.writeTokens]
    exact .ok hw
  | cons t ts ih =>
    obtain ⟨ht, hts⟩ := List.forall_mem_cons.1 h
    obtain ⟨n, rfl⟩ | hne := t.number_or
    · rw [Unroll.writeTokens]
      exact ih hts n hw
    · have hhead := ht depth multiplier.toNat w hw
      rcases hdone : writeToken t depth multiplier.toNat w with ⟨e | _, w'⟩
      · rw [hdone] at hhead
        rw [(writeTokens_cons hne ts depth multiplier w).2 e w' hdone]
        exact hhead
      · rw [hdone] at hhead
        rw [(writeTokens_cons hne ts depth multiplier w).1 w' hdone]
        exact ih hts 1 hhead.state

/-- Writing a token keeps what writing its operators and counting them keep. -/
theorem Keeps.writeToken (h : Keeps State Kind Fails) {t : Token} (ht : t.Over Kind) :
    ∀ (depth times : Nat) (w : Writer), State w →
      Kept State Fails (writeToken t depth times w) := by
  induction ht with
  | number n =>
    intro depth times w hw
    rw [Unroll.writeToken]
    exact .ok hw
  | operator hsymbol =>
    intro depth times w hw
    rw [Unroll.writeToken]
    exact .repeated (fun _ hw => h.putOperator hw hsymbol) times hw
  | group _ ih =>
    intro depth times w hw
    cases depth with
    | zero =>
      rw [Unroll.writeToken]
      refine .repeated (fun _ hw => ⟨hw, fun he => ?_⟩) times hw
      obtain rfl := Except.error.inj he
      exact h.tooDeep
    | succ depth =>
      rw [Unroll.writeToken]
      exact .repeated (fun _ hw => .writeTokens ih depth 1 hw) times hw

theorem Keeps.writeTokens (h : Keeps State Kind Fails) {ts : List Token}
    (hts : ∀ t ∈ ts, t.Over Kind) (depth : Nat) (multiplier : Int) (hw : State w) :
    Kept State Fails (writeTokens ts depth multiplier w) :=
  .writeTokens (fun t ht => h.writeToken (hts t ht)) depth multiplier hw

end

end Writer

/-! ### Sinks -/

/-- The ways in which writing to a sink may fail, other than at a value that is no token. -/
inductive Sink.Fails (sink : Sink) : Writer.Failure → Prop where
  | refused {count : Nat} {text : String} {f : Fault} (h : sink.refuses count text = some f) :
      Fails sink (.output f)
  | tooDeep : Fails sink .tooDeep

/-- A sink was called, and has received, with texts of a kind only. -/
structure Sink.Gained (Kind : String → Prop) (before after : Sink) : Prop where
  calls : ∃ made, after.calls = made ++ before.calls ∧ ∀ text ∈ made, Kind text
  received : ∃ taken, after.received = taken ++ before.received ∧ ∀ text ∈ taken, Kind text
  refuses : after.refuses = before.refuses

namespace Sink

theorem Fails.ne_foreign {sink : Sink} {e : Writer.Failure} (h : sink.Fails e) (v : Json.Value) :
    e ≠ .foreign v := by
  rintro rfl
  cases h

@[simp] theorem calls_write (sink : Sink) (text : String) :
    (sink.write text).2.calls = text :: sink.calls := by
  rw [write]
  split <;> rfl

@[simp] theorem refuses_write (sink : Sink) (text : String) :
    (sink.write text).2.refuses = sink.refuses := by
  rw [write]
  split <;> rfl

theorem received_write (sink : Sink) (text : String) :
    (sink.write text).2.received = sink.received ∨
      (sink.write text).2.received = text :: sink.received := by
  rw [write]
  split
  · exact .inl rfl
  · exact .inr rfl

/-- What fails in writing a text is refused. -/
theorem refuses_of_write {sink : Sink} {text : String} {f : Fault}
    (h : (sink.write text).1 = .error f) : sink.refuses sink.count text = some f := by
  rw [write] at h
  split at h
  · rename_i hrefused
    rw [hrefused, Except.error.inj h]
  · cases h

variable {Kind : String → Prop} {before after : Sink}

theorem Gained.refl (sink : Sink) : sink.Gained Kind sink :=
  ⟨⟨[], rfl, List.forall_mem_nil _⟩, ⟨[], rfl, List.forall_mem_nil _⟩, rfl⟩

theorem Gained.write (h : before.Gained Kind after) {text : String} (htext : Kind text) :
    before.Gained Kind (after.write text).2 := by
  obtain ⟨⟨made, hcalls, hmade⟩, ⟨taken, hreceived, htaken⟩, hrefuses⟩ := h
  constructor
  case calls =>
    refine ⟨text :: made, ?_, List.forall_mem_cons.2 ⟨htext, hmade⟩⟩
    rw [calls_write, hcalls, List.cons_append]
  case received =>
    rcases after.received_write text with hkept | hmore
    · exact ⟨taken, hkept.trans hreceived, htaken⟩
    · refine ⟨text :: taken, ?_, List.forall_mem_cons.2 ⟨htext, htaken⟩⟩
      rw [hmore, hreceived, List.cons_append]
  case refuses => rw [refuses_write, hrefuses]

/-- What a sink has received more is made of texts of the kind. -/
theorem Gained.output (h : before.Gained Kind after) :
    ∃ texts, after.output = before.output ++ String.join texts ∧ ∀ text ∈ texts, Kind text := by
  obtain ⟨taken, hreceived, htaken⟩ := h.received
  refine ⟨taken.reverse, ?_, fun text htext => htaken text (List.mem_reverse.1 htext)⟩
  rw [Sink.output, Sink.output, hreceived, List.reverse_append, String.join_append]

theorem Gained.fails (h : before.Gained Kind after) {e : Writer.Failure} (he : after.Fails e) :
    before.Fails e := by
  cases he with
  | refused hrefused =>
    rw [h.refuses] at hrefused
    exact .refused hrefused
  | tooDeep => exact .tooDeep

end Sink

namespace Writer

theorem put_snd (w : Writer) (text : String) :
    (w.put text).2 = { w with sink := (w.sink.write text).2 } := by
  rcases hwrite : w.sink.write text with ⟨_ | _, _⟩ <;> simp only [put, hwrite]

theorem put_fails {w : Writer} {text : String} {e : Failure} (h : (w.put text).1 = .error e) :
    w.sink.Fails e := by
  rcases hwrite : w.sink.write text with ⟨f | _, sink⟩
  · simp only [put, hwrite] at h
    obtain rfl := Except.error.inj h
    exact .refused (Sink.refuses_of_write (congrArg Prod.fst hwrite))
  · simp only [put, hwrite] at h
    cases h

/-- Counting an operator keeps the sink as it is or writes the end of a line. -/
theorem advance_snd (w : Writer) (counter : LineCounter) :
    ((w.advance counter).2.sink = w.sink ∨
      (w.advance counter).2.sink = (w.sink.write "\n").2) ∧
    (w.advance counter).2.counter.isSome = true := by
  let counted : Writer := { w with counter := some { counter with length := counter.length + 1 } }
  have hput := counted.put_snd "\n"
  rw [advance]
  split
  · rcases hended : counted.put "\n" with ⟨e | _, ended⟩
    · rw [hended] at hput
      obtain rfl := hput
      simp [counted]
    · rw [hended] at hput
      obtain rfl := hput
      simp [counted]
  · simp

theorem advance_fails {w : Writer} {counter : LineCounter} {e : Failure}
    (h : (w.advance counter).1 = .error e) : w.sink.Fails e := by
  let counted : Writer := { w with counter := some { counter with length := counter.length + 1 } }
  have hput : ∀ {e}, (counted.put "\n").1 = .error e → w.sink.Fails e := put_fails
  rw [advance] at h
  split at h
  · rcases hended : counted.put "\n" with ⟨e' | _, ended⟩
    · rw [hended] at hput
      simp only [counted, hended] at h
      exact hput h
    · simp only [counted, hended] at h
      cases h
  · cases h

/-- Writing keeps that a sink has been given texts of a kind only, if the ends of lines belong to it
where there are any, and fails only as the sink does. -/
theorem keeps_gained {Kind : String → Prop} (sink : Sink) {broken : Bool}
    (hbroken : broken = true → Kind "\n") :
    Keeps (fun w => sink.Gained Kind w.sink ∧ w.counter.isSome = broken) Kind sink.Fails where
  put {w text} h htext := by
    obtain ⟨hsink, hcounter⟩ := h
    refine ⟨?_, fun he => hsink.fails (put_fails he)⟩
    rw [put_snd]
    exact ⟨hsink.write htext, hcounter⟩
  advance {w counter} h hcounter := by
    obtain ⟨hsink, hsame⟩ := h
    obtain ⟨hafter, hcounted⟩ := w.advance_snd counter
    have htrue : broken = true := by rw [← hsame, hcounter, Option.isSome_some]
    refine ⟨⟨?_, hcounted.trans htrue.symm⟩, fun he => hsink.fails (advance_fails he)⟩
    rcases hafter with hkept | hended
    · rwa [hkept]
    · rw [hended]
      exact hsink.write (hbroken htrue)
  tooDeep := .tooDeep

/-- Nothing needs to be known of a writer. -/
theorem keeps_anything (Kind : String → Prop) :
    Keeps (fun _ => True) Kind fun e => ∀ v, e ≠ .foreign v where
  put _ _ := ⟨trivial, fun he => (put_fails he).ne_foreign⟩
  advance _ _ := ⟨trivial, fun he => (advance_fails he).ne_foreign⟩
  tooDeep v he := by cases he

end Writer

/-! ### Destinations -/

/-- Texts of a kind, and nothing else, have come to a destination. -/
inductive Target.Given (Kind : String → Prop) (files : Files) : Target → Files → Target → Prop where
  | sink {before after : Sink} (h : before.Gained Kind after) :
      Given Kind files (.sink before) files (.sink after)
  | untouched (path : String) : Given Kind files (.file path) files (.file path)
  | written {path : String} {opened : Place × Files} (hcreate : files.create path = .ok opened)
      {texts : List String} (h : ∀ text ∈ texts, Kind text) :
      Given Kind files (.file path) (opened.2.store opened.1 (String.join texts)) (.file path)

section

variable {Kind : String → Prop} {ts : List Token} {lineWidth : Option Int}

theorem Target.Given.refl {files : Files} (target : Target) :
    target.Given Kind files files target := by
  cases target with
  | sink s => exact .sink (.refl s)
  | file path => exact .untouched path

/-- Writing tokens, in lines or not, gives a sink nothing but their operators and the ends of lines,
and fails only as the sink does. -/
theorem writeAll_gained (hts : ∀ t ∈ ts, t.Over Kind)
    (hended : lineWidth.isSome = true → Kind "\n") (depth : Nat) (sink : Sink) :
    sink.Gained Kind (writeAll depth ts lineWidth sink).2 ∧
      ∀ e, (writeAll depth ts lineWidth sink).1 = .error (.writer e) → sink.Fails e := by
  have hkept : ∀ counter : Option LineCounter, counter.isSome = lineWidth.isSome →
      sink.Gained Kind (writeTokens ts depth 1 ⟨sink, counter⟩).2.sink ∧
      ∀ e, (writeTokens ts depth 1 ⟨sink, counter⟩).1.mapError WriteFailure.writer =
        .error (.writer e) → sink.Fails e := by
    intro counter hcounter
    have hwritten := (Writer.keeps_gained sink hended).writeTokens hts depth 1
      (w := ⟨sink, counter⟩) ⟨.refl sink, hcounter⟩
    refine ⟨hwritten.state.1, fun e he => ?_⟩
    rcases hresult : (writeTokens ts depth 1 ⟨sink, counter⟩).1 with e' | _
    · rw [hresult] at he
      obtain rfl := WriteFailure.writer.inj (Except.error.inj he)
      exact hwritten.fails hresult
    · rw [hresult] at he
      cases he
  cases lineWidth with
  | none => exact hkept none rfl
  | some width =>
    rcases hcounter : LineCounter.ofWidth? width with _ | counter
    · simp only [writeAll, hcounter]
      exact ⟨.refl sink, by simp⟩
    · simp only [writeAll, hcounter]
      exact hkept (some counter) rfl

/-- Nothing but a value that is no token is the failure of a writer at such a value. -/
theorem Failure.ofWrite_foreign {e : WriteFailure} {v : Json.Value}
    (h : Failure.ofWrite e = .foreign v) : e = .writer (.foreign v) := by
  cases e with
  | width n => cases h
  | writer e =>
    cases e with
    | output f =>
      rw [ofWrite, ofWriter, ofOutput] at h
      split at h <;> cases h
    | foreign v' =>
      obtain rfl := Failure.foreign.inj h
      rfl
    | tooDeep => cases h

theorem writeTo_given (hts : ∀ t ∈ ts, t.Over Kind)
    (hended : lineWidth.isSome = true → Kind "\n") (files : Files) (depth : Nat)
    (target : Target) :
    target.Given Kind files (writeTo files depth ts lineWidth target).2.1
        (writeTo files depth ts lineWidth target).2.2 ∧
      ∀ v, (writeTo files depth ts lineWidth target).1 ≠ .error (.foreign v) := by
  have hforeign : ∀ sink v,
      (writeAll depth ts lineWidth sink).1.mapError Failure.ofWrite ≠ .error (.foreign v) := by
    intro sink v heq
    rcases hresult : (writeAll depth ts lineWidth sink).1 with e | _
    · rw [hresult] at heq
      obtain rfl := Failure.ofWrite_foreign (Except.error.inj heq)
      exact ((writeAll_gained hts hended depth sink).2 _ hresult).ne_foreign v rfl
    · rw [hresult] at heq
      cases heq
  cases target with
  | sink s => exact ⟨.sink (writeAll_gained hts hended depth s).1, hforeign s⟩
  | file path =>
    rcases hcreate : files.create path with f | ⟨place, opened⟩
    · simp only [writeTo, hcreate]
      exact ⟨.untouched path, by simp⟩
    · simp only [writeTo, hcreate]
      obtain ⟨texts, houtput, htexts⟩ := (writeAll_gained hts hended depth .unlimited).1.output
      rw [houtput, Sink.unlimited, Sink.output_ofRule, String.empty_append]
      exact ⟨.written hcreate htexts, hforeign .unlimited⟩

end

/-! ### Programs -/

/-- What is written for programs: operators of the configuration, and the ends of lines if lines are
broken. -/
def Config.Writes (config : Config) (broken : Bool) (text : String) : Prop :=
  (∃ c : Char, ↑c ∈ config.operators ∧ text = String.singleton c) ∨ (broken = true ∧ text = "\n")

/-- What fails in the lexer is a fault, as it came, or an error of the library. -/
theorem Failure.ofLexer_cases (e : Lexer.Failure) :
    (∃ f, Failure.ofLexer e = .fault f) ∨ ∃ error, Failure.ofLexer e = .error error := by
  cases e with
  | rejected r => exact .inr ⟨_, rfl⟩
  | input f =>
    rw [ofLexer, ofInput]
    split
    · exact .inr ⟨_, rfl⟩
    · exact .inl ⟨_, rfl⟩
  | tooDeep => exact .inr ⟨_, rfl⟩

section

variable {files : Files} {config : Config} {depth : Nat} {origin : Origin}

theorem tokenize_error {stream : Stream} {e : Failure}
    (h : (tokenize config depth stream).1 = .error e) :
    (∃ f, e = .fault f) ∨ ∃ error, e = .error error := by
  rcases hread : (Lexer.ofSource (.ofStream stream Source.chunkSize)).readAll config depth with
    ⟨failure | ts, l⟩
  · simp only [tokenize, hread] at h
    rw [← Except.error.inj h]
    exact Failure.ofLexer_cases failure
  · simp only [tokenize, hread] at h
    cases h

/-- Reading a program fails neither of the width of lines nor of a value that is no token. -/
theorem tokenizeFrom_error {e : Failure}
    (h : (tokenizeFrom files config depth origin).1 = .error e) :
    (∃ f, e = .fault f) ∨ ∃ error, e = .error error := by
  rw [tokenizeFrom] at h
  split at h
  · exact .inl ⟨_, (Except.error.inj h).symm⟩
  · exact tokenize_error h

/-- The operators of the tokens of a program are those of the configuration. -/
theorem tokenizeFrom_over {ts : List Token} (broken : Bool)
    (h : (tokenizeFrom files config depth origin).1 = .ok ts) :
    ∀ t ∈ ts, t.Over (config.Writes broken) :=
  fun t ht => (tokenizeFrom_wellFormed h t ht).over fun c hc => .inl ⟨c, hc, rfl⟩

/-- Nothing but operators and the ends of lines comes to the destination of a program, and
preprocessing does not fail of a value that is no token. -/
theorem preprocess_given (files : Files) (depth : Nat) (origin : Origin) (target : Target)
    (config : Config) (lineWidth : Option Int) :
    target.Given (config.Writes lineWidth.isSome) files
        (preprocess files depth origin target config lineWidth).files
        (preprocess files depth origin target config lineWidth).target ∧
      ∀ v, (preprocess files depth origin target config lineWidth).result ≠
        .error (.foreign v) := by
  rcases widthOk_or lineWidth with ⟨width, rfl, hlt⟩ | hwidth
  · rw [preprocess_of_width hlt target]
    exact ⟨.refl target, by simp⟩
  rcases hread : (tokenizeFrom files config depth origin).1 with e | ts
  · obtain ⟨hresult, hfiles, htarget⟩ := preprocess_of_error hwidth hread target
    rw [hresult, hfiles, htarget]
    refine ⟨.refl target, fun v heq => ?_⟩
    rcases tokenizeFrom_error hread with ⟨f, rfl⟩ | ⟨error, rfl⟩ <;> cases heq
  · have hwrite := preprocess_of_tokens hwidth hread target
    have hgiven := writeTo_given (tokenizeFrom_over lineWidth.isSome hread)
      (fun hsome => .inr ⟨hsome, rfl⟩) files depth target
    rw [← hwrite] at hgiven
    exact hgiven

end

end Unroll
