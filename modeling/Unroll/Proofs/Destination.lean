import Unroll.Proofs.Running

/-!
# The destination of a program

Opening a file for writing loses what was in it. The library and the command line program open
their destination when nothing can go wrong any more but writing itself: what fails before leaves
the destination as it was, and what was read to its end may be written to where it came from.

* `Failure.Early` — the failures that are met before writing;
* `writeTo_not_early` — writing does not fail in such a way;
* `DestinationSafe`, `Command.DestinationSafe` — the destination is untouched, or holds the whole
  output;
* `destination_untouched_or_written` — both the library and the command line program are safe.
-/

namespace Unroll

/-! ### Early failures -/

/-- A failure that is met before anything is written: of the width of lines, of the input, of what
was read, or because it is nested too deeply to be read. -/
inductive Failure.Early : Failure → Prop where
  | width (width : Int) : Early (.width width)
  | input (details : List Json.Value) (cause : Option Fault) :
      Early (.error (.input details cause))
  | rejection (r : Rejection) : Early (.error (.rejection r))
  | tooDeep : Early (.error (.tooDeep "read"))

/-- What is nested too deeply to be written was not too deep to be read. -/
theorem Error.tooDeep_ne : Error.tooDeep "written" ≠ Error.tooDeep "read" := by
  intro h
  have htext : (Error.tooDeep "written").text? = (Error.tooDeep "read").text? := by rw [h]
  exact absurd htext (by decide)

theorem Failure.not_early_ofWriter (e : Writer.Failure) : ¬ (Failure.ofWriter e).Early := by
  intro h
  generalize heq : Failure.ofWriter e = failure at h
  cases e with
  | output f =>
    rw [ofWriter, ofOutput] at heq
    split at heq <;> subst heq <;> cases h
  | foreign v =>
    subst heq
    cases h
  | tooDeep =>
    cases h with
    | width _ => cases heq
    | input _ _ => cases heq
    | rejection _ => cases heq
    | tooDeep => exact Error.tooDeep_ne (Failure.error.inj heq)

section

variable {files : Files} {depth : Nat} {ts : List Token} {lineWidth : Option Int}

/-- With a width that lines may have, only the writer can fail. -/
theorem writeAll_error (hwidth : WidthOk lineWidth) {sink : Sink} {e : WriteFailure}
    (h : (writeAll depth ts lineWidth sink).1 = .error e) : ∃ failure, e = .writer failure := by
  have hmapped : ∀ {result : Except Writer.Failure Unit},
      result.mapError WriteFailure.writer = .error e → ∃ failure, e = .writer failure := by
    intro result hresult
    cases result with
    | ok _ => cases hresult
    | error failure => exact ⟨failure, (Except.error.inj hresult).symm⟩
  cases lineWidth with
  | none => exact hmapped h
  | some width =>
    have hpos := hwidth width rfl
    have hcounter : LineCounter.ofWidth? width = some ⟨width.toNat, 0⟩ := by
      rw [LineCounter.ofWidth?, if_neg (by omega)]
    simp only [writeAll, hcounter] at h
    exact hmapped h

/-- Writing does not fail in the way in which reading fails. -/
theorem writeTo_not_early (hwidth : WidthOk lineWidth) {target : Target} {e : Failure}
    (h : (writeTo files depth ts lineWidth target).1 = .error e) : ¬ e.Early := by
  have hmapped : ∀ {sink : Sink},
      (writeAll depth ts lineWidth sink).1.mapError Failure.ofWrite = .error e → ¬ e.Early := by
    intro sink hresult
    rcases hwrite : (writeAll depth ts lineWidth sink).1 with failure | _
    · obtain ⟨failure, rfl⟩ := writeAll_error hwidth hwrite
      rw [hwrite] at hresult
      obtain rfl := Except.error.inj hresult
      exact Failure.not_early_ofWriter failure
    · rw [hwrite] at hresult
      cases hresult
  cases target with
  | sink s => exact hmapped h
  | file path =>
    rcases hcreate : files.create path with f | ⟨place, files'⟩
    · simp only [writeTo, hcreate] at h
      obtain rfl := Except.error.inj h
      intro hearly
      cases hearly
    · simp only [writeTo, hcreate] at h
      exact hmapped h

end

/-! ### The library -/

/-- How the library treats its destination. -/
structure DestinationSafe (files : Files) (depth : Nat) (origin : Origin) (target : Target)
    (config : Config) (lineWidth : Option Int) (done : Preprocessed) : Prop where
  /-- nothing is touched where the width of lines is too small or reading fails -/
  untouched (h : (∃ width, lineWidth = some width ∧ width < 1) ∨
      ∃ e, (tokenizeFrom files config depth origin).1 = .error e) :
    (∃ e, done.result = .error e) ∧ done.files = files ∧ done.target = target
  /-- whatever the stage was, nothing is touched where it failed early -/
  early {e : Failure} (h : done.result = .error e) (hearly : e.Early) :
    done.files = files ∧ done.target = target
  /-- a file that can be written has all of the output in the end, also if it was read before -/
  written {ts : List Token} {path : String} (hwidth : WidthOk lineWidth)
      (htokens : (tokenizeFrom files config depth origin).1 = .ok ts)
      (htarget : target = .file path) (hcreate : ∃ opened, files.create path = .ok opened)
      (hlevels : Token.levelsAll ts 1 ≤ depth) :
    done.result = .ok () ∧ files.Rewritten path (Token.text lineWidth ts) done.files

theorem preprocess_safe (files : Files) (depth : Nat) (origin : Origin) (target : Target)
    (config : Config) (lineWidth : Option Int) :
    DestinationSafe files depth origin target config lineWidth
      (preprocess files depth origin target config lineWidth) := by
  constructor
  case untouched =>
    intro h
    rcases widthOk_or lineWidth with ⟨width, rfl, hlt⟩ | hwidth
    · rw [preprocess_of_width hlt target]
      exact ⟨⟨_, rfl⟩, rfl, rfl⟩
    · obtain ⟨e, he⟩ := h.resolve_left fun ⟨width, hsome, hlt⟩ =>
        absurd (hwidth width hsome) (Int.not_le.2 hlt)
      obtain ⟨hresult, hfiles, htarget⟩ := preprocess_of_error hwidth he target
      exact ⟨⟨e, hresult⟩, hfiles, htarget⟩
  case early =>
    intro e hresult hearly
    rcases widthOk_or lineWidth with ⟨width, rfl, hlt⟩ | hwidth
    · rw [preprocess_of_width hlt target]
      exact ⟨rfl, rfl⟩
    · rcases htokens : (tokenizeFrom files config depth origin).1 with e' | ts
      · exact (preprocess_of_error hwidth htokens target).2
      · -- the width is not too small and everything was read, so that only writing can have failed
        have hwrite := preprocess_of_tokens hwidth htokens target
        have hfailed : (writeTo files depth ts lineWidth target).1 = .error e := by
          rw [← hwrite]
          exact hresult
        exact absurd hearly (writeTo_not_early hwidth hfailed)
  case written =>
    rintro ts path hwidth htokens rfl ⟨opened, hcreate⟩ hlevels
    have hwrite := preprocess_of_tokens hwidth htokens (.file path)
    obtain ⟨hresult, hrewritten⟩ :=
      writeTo_file (tokenizeFrom_genuine htokens) hwidth hcreate hlevels
    rw [← hwrite] at hresult hrewritten
    exact ⟨hresult, hrewritten⟩

/-! ### The command line program -/

namespace Command

/-- How the command line program treats its destination. -/
structure DestinationSafe (around : Surroundings) (arguments : Arguments) (done : Result) :
    Prop where
  /-- nothing is touched without a configuration -/
  unconfigured {abort : Abort} (h : (loadConfig around arguments).2 = .error abort) :
    done.outcome ≠ .code 0 ∧ done.stdout = "" ∧ done.files = around.files
  /-- nothing is touched where reading fails -/
  unread {config : Config} {abort : Abort}
      (hconfig : (loadConfig around arguments).2 = .ok config)
      (h : (readTokens around config arguments).1 = .error abort) :
    done.outcome ≠ .code 0 ∧ done.stdout = "" ∧ done.files = around.files
  /-- a file that can be written has all of the output in the end, also if it was read before -/
  written {config : Config} {ts : List Token} {path : String}
      (hconfig : (loadConfig around arguments).2 = .ok config)
      (htokens : (readTokens around config arguments).1 = .ok ts)
      (houtput : arguments.output = some path)
      (hcreate : ∃ opened, around.files.create path = .ok opened)
      (hgiven : arguments.lineWidth ≠ .nothing)
      (hlevels : Token.levelsAll ts 1 ≤ around.limits.nesting) :
    done.outcome = .code 0 ∧ done.stdout = "" ∧ around.files.Rewritten path
      (Token.text arguments.lineWidth.columns? ts ++ arguments.ending) done.files

theorem run_safe (around : Surroundings) {words : List String} {arguments : Arguments}
    (hparse : Arguments.parse words = .ok arguments) (hlicense : arguments.license = false) :
    DestinationSafe around arguments (run around words) := by
  have hends : Ends around arguments (preprocessAs around arguments) (run around words) :=
    run_ends hparse hlicense
  constructor
  case unconfigured =>
    intro abort hload
    rw [preprocessAs_of_config_error hload] at hends
    exact ⟨hends.outcome_ne rfl, hends.stdout, hends.files⟩
  case unread =>
    intro config abort hload hread
    obtain ⟨hresult, hstdout, hfiles⟩ := preprocessAs_of_read_error hload hread
    exact ⟨hends.outcome_ne hresult, hends.stdout.trans hstdout, hends.files.trans hfiles⟩
  case written =>
    intro config ts path hload hread houtput hcreate hgiven hlevels
    have hopened : ∀ p, arguments.output = some p →
        ∃ opened, around.files.create p = .ok opened := by
      intro p hp
      obtain rfl := Option.some.inj (houtput.symm.trans hp)
      exact hcreate
    have hcharset : arguments.output = none → around.charset = .utf8 := by
      intro hnone
      rw [houtput] at hnone
      cases hnone
    have hwrite : CanWrite around arguments :=
      ⟨hgiven, Arguments.widthOk hparse, hcharset, hopened⟩
    obtain ⟨hresult, hdelivered⟩ := (preprocessAs_writes hwrite hload hread).1 hlevels
    rw [Delivered, houtput] at hdelivered
    rw [← hends.stdout, ← hends.files] at hdelivered
    exact ⟨hends.succeeds hresult, hdelivered⟩

end Command

/-- Neither the library nor the command line program touches its destination before everything is
read, and both write all of their output, also to the file that was read. -/
theorem destination_untouched_or_written :
    (∀ (files : Files) (depth : Nat) (origin : Origin) (target : Target) (config : Config)
        (lineWidth : Option Int),
      DestinationSafe files depth origin target config lineWidth
        (preprocess files depth origin target config lineWidth)) ∧
    (∀ (around : Command.Surroundings) (words : List String) (arguments : Command.Arguments),
      Command.Arguments.parse words = .ok arguments → arguments.license = false →
      Command.DestinationSafe around arguments (Command.run around words)) :=
  ⟨preprocess_safe, fun around _ _ hparse hlicense => Command.run_safe around hparse hlicense⟩

/-! ### A file that is its own destination -/

/-- A file is to be written where it was read. -/
def Command.Arguments.inPlace : Arguments where
  input := some "p"
  output := some "p"
  configFile := none
  symbols := []
  lineWidth := .columns standardWidth
  noNewline := false
  license := false
  verbose := false

theorem Command.OptionValue.path?_p : (word "p").path? = some "p" := by
  rw [path?, if_neg (by decide), Path.normalise, Path.components, Path.names_p]
  rfl

theorem Command.Arguments.parse_in_place :
    Arguments.parse ["p", "-o", "p"] = .ok inPlace := by
  have hclassified : Word.classifyAll ["p", "-o", "p"] =
      .ok [.plain "p", .option .output "-o" none, .plain "p"] := by decide
  have hwords : Given.empty.applyWords true []
      [.plain "p", .option .output "-o" none, .plain "p"] =
      .ok ({ Given.empty with input := some "p", output := some (.word "p") }, []) := by
    rw [Given.applyWords, if_pos rfl, Given.applyWords]
    · simp only [Given.applyWords]
      rfl
    · simp
  refine parse_of_given ⟨_, hclassified, hwords⟩ ?_
  show Except.ok (Arguments.mk (OptionValue.word "p").path? (OptionValue.word "p").path? none []
    (.columns standardWidth) false false false) = _
  rw [OptionValue.path?_p, inPlace]

/-- The same file as source and destination, with a program that is right and with one that is
not. -/
theorem destination_in_place :
    let files : Files := ⟨[(["p"], .file (Text.Utf8.encode ['#', '2', '+']))]⟩
    let broken : Files := ⟨[(["p"], .file (Text.Utf8.encode [')']))]⟩
    let words := ["p", "-o", "p"]
    let around (files : Files) : Command.Surroundings :=
      { Command.Surroundings.ofText [] with files }
    (preprocess broken Lexer.nestingLimit (.file "p") (.file "p") .standard none).files = broken ∧
    files.Rewritten "p" "++"
      (preprocess files Lexer.nestingLimit (.file "p") (.file "p") .standard none).files ∧
    (Command.run (around broken) words).files = broken ∧
    files.Rewritten "p" "++\n" (Command.run (around files) words).files := by
  intro files broken words around
  have hparse := Command.Arguments.parse_in_place
  obtain ⟨hlibrary, hprogram⟩ := destination_untouched_or_written
  have hlocate : files.locate "p" = .ok ["p"] := by
    rw [Files.locate, Path.names_p]
    rfl
  have hlocate' : broken.locate "p" = .ok ["p"] := by
    rw [Files.locate, Path.names_p]
    rfl
  have hcreate : ∃ opened, files.create "p" = .ok opened := by
    rw [Files.create, Path.wantsDirectory, Path.names_p, hlocate]
    exact ⟨_, rfl⟩
  have htokens : (tokenizeFrom files .standard Lexer.nestingLimit (.file "p")).1 =
      .ok [.number 2, .operator "+"] := by
    rw [tokenizeFrom, Origin.open?, Files.open?, hlocate]
    rfl
  have hrejected : ∃ e, (tokenizeFrom broken .standard Lexer.nestingLimit (.file "p")).1 =
      .error (.error e) := by
    rw [tokenizeFrom, Origin.open?, Files.open?, hlocate']
    exact ⟨_, rfl⟩
  obtain ⟨e, he⟩ := hrejected
  have hload : ∀ files, (Command.loadConfig (around files) .inPlace).2 = .ok .standard :=
    fun _ => rfl
  have hunbroken : WidthOk none := by
    intro width hwidth
    cases hwidth
  refine ⟨?_, ?_, ?_, ?_⟩
  · exact ((hlibrary ..).untouched (.inr ⟨_, he⟩)).2.1
  · exact ((hlibrary ..).written hunbroken htokens rfl hcreate (by decide)).2
  · have hread : (Command.readTokens (around broken) .standard .inPlace).1 = _ :=
      Command.readTokens_of_error he
    exact ((hprogram _ words _ hparse rfl).unread (hload _) hread).2.2
  · have hread : (Command.readTokens (around files) .standard .inPlace).1 = _ :=
      Command.readTokens_of_ok htokens
    exact ((hprogram _ words _ hparse rfl).written (hload _) hread rfl hcreate
      (by simp [Command.Arguments.inPlace]) (by decide)).2.2

end Unroll
