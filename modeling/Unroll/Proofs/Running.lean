import Mathlib.Data.List.TakeWhile
import Unroll.Command.Run
import Unroll.Proofs.Arguments
import Unroll.Proofs.FileTree
import Unroll.Proofs.Output

/-!
# Running the program

The stages of preprocessing, one by one, for the library and for the command line program, which
goes through them in its own way. What the one and the other leave is said here once for every
stage.

* `preprocess_of_width`, `preprocess_of_error`, `preprocess_of_tokens` — the library;
* `Command.writeOutput_eq` — what the command line program writes;
* `Command.Delivered` — an output has come to where the arguments ask for it;
* `Command.preprocessAs_of_config_error`, `Command.preprocessAs_of_read_error`,
  `Command.preprocessAs_writes` — the command line program;
* `Command.Ends`, `Command.run_ends` — how it ends after that.
-/

namespace Unroll

/-! ### The library -/

section

variable {files : Files} {depth : Nat} {origin : Origin} {config : Config}
  {lineWidth : Option Int}

theorem WidthOk.filter_eq_none (h : WidthOk lineWidth) : lineWidth.filter (· < 1) = none := by
  rw [Option.filter_eq_none_iff]
  intro width hwidth
  have hpos := h width hwidth
  simpa using hpos

/-- The width of lines is too small, or it may be used. -/
theorem widthOk_or (lineWidth : Option Int) :
    (∃ width, lineWidth = some width ∧ width < 1) ∨ WidthOk lineWidth := by
  by_cases hsmall : ∃ width, lineWidth = some width ∧ width < 1
  · exact .inl hsmall
  · exact .inr fun width hwidth => Int.le_of_not_gt fun hlt => hsmall ⟨width, hwidth, hlt⟩

/-- A width that is too small is found before anything is read. -/
theorem preprocess_of_width {width : Int} (h : width < 1) (target : Target) :
    preprocess files depth origin target config (some width) =
      { result := .error (.width width), files, origin, target, log := [] } := by
  rw [preprocess, Option.filter_some, if_pos (decide_eq_true h)]

/-- Where reading fails, nothing is written. -/
theorem preprocess_of_error (hwidth : WidthOk lineWidth) {e : Failure}
    (h : (tokenizeFrom files config depth origin).1 = .error e) (target : Target) :
    (preprocess files depth origin target config lineWidth).result = .error e ∧
    (preprocess files depth origin target config lineWidth).files = files ∧
    (preprocess files depth origin target config lineWidth).target = target := by
  rcases hread : tokenizeFrom files config depth origin with ⟨result, bindings, after⟩
  rw [hread] at h
  obtain rfl : result = .error e := h
  simp only [preprocess, hwidth.filter_eq_none, hread, and_self]

/-- Tokens that were read are written, and nothing else is done. -/
theorem preprocess_of_tokens (hwidth : WidthOk lineWidth) {ts : List Token}
    (h : (tokenizeFrom files config depth origin).1 = .ok ts) (target : Target) :
    ((preprocess files depth origin target config lineWidth).result,
      (preprocess files depth origin target config lineWidth).files,
      (preprocess files depth origin target config lineWidth).target) =
      writeTo files depth ts lineWidth target := by
  rcases hread : tokenizeFrom files config depth origin with ⟨result, bindings, after⟩
  rw [hread] at h
  obtain rfl : result = .ok ts := h
  simp only [preprocess, hwidth.filter_eq_none, hread]

/-- A file that is written holds the text of the tokens. -/
theorem writeTo_file {ts : List Token} (hts : ∀ t ∈ ts, t.Genuine) (hwidth : WidthOk lineWidth)
    {path : String} {opened : Place × Files} (hcreate : files.create path = .ok opened)
    (hlevels : Token.levelsAll ts 1 ≤ depth) :
    (writeTo files depth ts lineWidth (.file path)).1 = .ok () ∧
      files.Rewritten path (Token.text lineWidth ts)
        (writeTo files depth ts lineWidth (.file path)).2.1 := by
  obtain ⟨place, files'⟩ := opened
  have hwrite := (writeAll_eq hts hwidth Sink.unlimited_accepts depth).1 hlevels
  simp only [writeTo, hcreate, hwrite]
  refine ⟨rfl, ?_⟩
  rw [Sink.unlimited, Token.output_after]
  exact Files.rewritten_store hcreate _

/-- A sink that takes everything is given the text of the tokens, unless too many groups would be
written inside of each other. -/
theorem preprocess_unlimited (hwidth : WidthOk lineWidth) {ts : List Token}
    (h : (tokenizeFrom files config depth origin).1 = .ok ts) :
    (Token.levelsAll ts 1 ≤ depth →
      (preprocess files depth origin (.sink .unlimited) config lineWidth).result = .ok () ∧
      (preprocess files depth origin (.sink .unlimited) config lineWidth).target =
        .sink (Sink.unlimited.after (Token.calls lineWidth ts))) ∧
    (depth < Token.levelsAll ts 1 →
      (preprocess files depth origin (.sink .unlimited) config lineWidth).result =
        .error (.error (.tooDeep "written"))) := by
  have hwrite := preprocess_of_tokens hwidth h (.sink .unlimited)
  obtain ⟨hok, hdeep⟩ :=
    writeAll_eq (tokenizeFrom_genuine h) hwidth Sink.unlimited_accepts depth
  refine ⟨fun hle => ?_, fun hlt => ?_⟩
  · simp only [writeTo, hok hle, Prod.mk.injEq] at hwrite
    exact ⟨hwrite.1, hwrite.2.2⟩
  · have hresult := congrArg Prod.fst hwrite
    simp only [writeTo, hdeep hlt] at hresult
    exact hresult

end

namespace Command

/-! ### What is written -/

/-- The width of the lines of an output that are broken. -/
def LineWidth.columns? : LineWidth → Option Int
  | columns n => some n
  | unbounded | nothing => none

theorem Arguments.widthOk {words : List String} {arguments : Arguments}
    (h : Arguments.parse words = .ok arguments) : WidthOk arguments.lineWidth.columns? := by
  intro width hwidth
  rcases hgiven : arguments.lineWidth with _ | n | _
  · rw [hgiven] at hwidth
    cases hwidth
  · rw [hgiven] at hwidth
    obtain rfl := Option.some.inj hwidth
    exact width_pos h hgiven
  · rw [hgiven] at hwidth
    cases hwidth

/-- What ends the last line of an output. -/
def Arguments.ending (arguments : Arguments) : String := if arguments.noNewline then "" else "\n"

/-- The calls that write an output as a whole. -/
def Arguments.calls (arguments : Arguments) (ts : List Token) : List String :=
  Token.calls arguments.lineWidth.columns? ts ++ if arguments.noNewline then [] else ["\n"]

theorem Arguments.output_after (arguments : Arguments) (ts : List Token)
    (refuses : Nat → String → Option Fault) :
    ((Sink.ofRule refuses).after (arguments.calls ts)).output =
      Token.text arguments.lineWidth.columns? ts ++ arguments.ending := by
  rw [Sink.output_after, Sink.output_ofRule, String.empty_append, calls, String.join_append, ending]
  split <;> rfl

/-- A width that was not taken away is that of the lines. -/
theorem writeOutput_of_given {arguments : Arguments} (h : arguments.lineWidth ≠ .nothing)
    (depth : Nat)
    (ts : List Token) (sink : Sink) :
    writeOutput depth arguments ts sink =
      match writeAll depth ts arguments.lineWidth.columns? sink with
      | (.error e, sink) => (.error (.ofFailure preprocessing (.ofWrite e)), sink)
      | (.ok (), sink) =>
        if arguments.noNewline then (.ok (), sink)
        else match sink.write "\n" with
          | (.ok (), sink) => (.ok (), sink)
          | (.error f, sink) => (.error (.ofFailure preprocessing (.ofOutput f)), sink) := by
  rcases arguments with ⟨_, _, _, _, _ | n | _, _, _, _⟩
  · rfl
  · rfl
  · exact absurd rfl h

/-- An output is written as a whole, with the end of its last line, unless too many groups would be
written inside of each other. -/
theorem writeOutput_eq {arguments : Arguments} {ts : List Token} (hts : ∀ t ∈ ts, t.Genuine)
    (hgiven : arguments.lineWidth ≠ .nothing) (hwidth : WidthOk arguments.lineWidth.columns?)
    {sink : Sink} (hsink : sink.Accepts) (depth : Nat) :
    (Token.levelsAll ts 1 ≤ depth →
      writeOutput depth arguments ts sink = (.ok (), sink.after (arguments.calls ts))) ∧
    (depth < Token.levelsAll ts 1 →
      (writeOutput depth arguments ts sink).1 =
        .error (.ofFailure preprocessing (.ofWrite (.writer .tooDeep)))) := by
  obtain ⟨hok, hdeep⟩ := writeAll_eq hts hwidth hsink depth
  rw [writeOutput_of_given hgiven]
  refine ⟨fun hle => ?_, fun hlt => ?_⟩
  · rw [hok hle]
    simp only [Arguments.calls]
    split
    · rw [List.append_nil]
    · rw [(hsink.after _).write, Sink.after_after]
  · rcases hwrite : writeAll depth ts arguments.lineWidth.columns? sink with ⟨result, after⟩
    obtain rfl : result = .error (.writer .tooDeep) := by
      have hlast := hdeep hlt
      rwa [hwrite] at hlast
    rfl

/-! ### The command line program -/

/-- An output stands on the standard output, or in the file that was asked for, with nothing on the
standard output then. -/
def Delivered (around : Surroundings) (arguments : Arguments) (output stdout : String)
    (after : Files) : Prop :=
  match arguments.output with
  | none => stdout = output ∧ after = around.files
  | some path => stdout = "" ∧ around.files.Rewritten path output after

variable {around : Surroundings} {arguments : Arguments} {config : Config} {abort : Abort}

/-- All warnings are about the configuration. -/
theorem preprocessAs_warnings (around : Surroundings) (arguments : Arguments) :
    (preprocessAs around arguments).warnings = (loadConfig around arguments).1 := by
  rcases hload : loadConfig around arguments with ⟨warnings, abort | config⟩
  · simp only [preprocessAs, hload]
  rcases htokens : readTokens around config arguments with ⟨abort | ts, bindings⟩
  · simp only [preprocessAs, hload, htokens]
  rcases houtput : arguments.output with _ | path
  · simp only [preprocessAs, hload, htokens, houtput]
  · rcases hcreate : around.files.create path with f | ⟨place, files⟩ <;>
      simp only [preprocessAs, hload, htokens, houtput, hcreate]

/-- Without a configuration, nothing is read or written. -/
theorem preprocessAs_of_config_error
    (h : (loadConfig around arguments).2 = .error abort) :
    preprocessAs around arguments =
      { result := .error abort, stdout := "", files := around.files,
        warnings := (loadConfig around arguments).1, log := [] } := by
  rcases hconfig : loadConfig around arguments with ⟨warnings, result⟩
  rw [hconfig] at h
  obtain rfl : result = .error abort := h
  simp only [preprocessAs, hconfig]

/-- Without the tokens, nothing is written. -/
theorem preprocessAs_of_read_error
    (hconfig : (loadConfig around arguments).2 = .ok config)
    (hread : (readTokens around config arguments).1 = .error abort) :
    (preprocessAs around arguments).result = .error abort ∧
    (preprocessAs around arguments).stdout = "" ∧
    (preprocessAs around arguments).files = around.files := by
  rcases hload : loadConfig around arguments with ⟨warnings, result⟩
  rw [hload] at hconfig
  obtain rfl : result = .ok config := hconfig
  rcases htokens : readTokens around config arguments with ⟨result, bindings⟩
  rw [htokens] at hread
  obtain rfl : result = .error abort := hread
  simp only [preprocessAs, hload, htokens, and_self]

/-- The tokens are written to the standard output, or to a file if it can be opened. -/
theorem preprocessAs_of_tokens {ts : List Token}
    (hconfig : (loadConfig around arguments).2 = .ok config)
    (hread : (readTokens around config arguments).1 = .ok ts) :
    (arguments.output = none →
      (preprocessAs around arguments).result =
        (writeOutput around.limits.nesting arguments ts (.encoding around.charset)).1 ∧
      (preprocessAs around arguments).stdout =
        (writeOutput around.limits.nesting arguments ts (.encoding around.charset)).2.output ∧
      (preprocessAs around arguments).files = around.files) ∧
    (∀ path f, arguments.output = some path → around.files.create path = .error f →
      (preprocessAs around arguments).result = .error (.ofOpening path f)) ∧
    (∀ path place files, arguments.output = some path →
      around.files.create path = .ok (place, files) →
      (preprocessAs around arguments).result =
        (writeOutput around.limits.nesting arguments ts .unlimited).1 ∧
      (preprocessAs around arguments).stdout = "" ∧
      (preprocessAs around arguments).files =
        files.store place
          (writeOutput around.limits.nesting arguments ts .unlimited).2.output) := by
  rcases hload : loadConfig around arguments with ⟨warnings, result⟩
  rw [hload] at hconfig
  obtain rfl : result = .ok config := hconfig
  rcases htokens : readTokens around config arguments with ⟨result, bindings⟩
  rw [htokens] at hread
  obtain rfl : result = .ok ts := hread
  refine ⟨fun houtput => ?_, fun path f houtput hcreate => ?_,
    fun path place files houtput hcreate => ?_⟩
  · simp only [preprocessAs, hload, htokens, houtput, and_self]
  · simp only [preprocessAs, hload, htokens, houtput, hcreate]
  · simp only [preprocessAs, hload, htokens, houtput, hcreate, and_self]

/-- Where the program that is preprocessed comes from. -/
def Arguments.origin (arguments : Arguments) (around : Surroundings) : Origin :=
  match arguments.input with
  | some path => .file path
  | none => .stream around.stdin

/-- What a failure means that ends reading. -/
def Abort.ofReading (input : Option String) (e : Failure) : Abort :=
  match input, e with
  | some path, .fault f => .ofOpening path f
  | none, .fault f => .escape (.fault f)
  | _, _ => .ofFailure preprocessing e

/-- The command line program reads what the library reads. -/
theorem readTokens_fst (around : Surroundings) (config : Config) (arguments : Arguments) :
    (readTokens around config arguments).1 =
      (tokenizeFrom around.files config around.limits.nesting (arguments.origin around)).1.mapError
        (Abort.ofReading arguments.input) := rfl

theorem readTokens_of_ok {ts : List Token} (h : (tokenizeFrom around.files config
      around.limits.nesting (arguments.origin around)).1 = .ok ts) :
    (readTokens around config arguments).1 = .ok ts := by
  rw [readTokens_fst, h]
  rfl

/-- Errors of the library are reported as they are. -/
theorem readTokens_of_error {e : Error} (h : (tokenizeFrom around.files config
      around.limits.nesting (arguments.origin around)).1 = .error (.error e)) :
    (readTokens around config arguments).1 = .error (.ofFailure preprocessing (.error e)) := by
  rw [readTokens_fst, h]
  cases arguments.input <;> rfl

theorem tokenizeFrom_of_readTokens {ts : List Token}
    (h : (readTokens around config arguments).1 = .ok ts) :
    (tokenizeFrom around.files config around.limits.nesting (arguments.origin around)).1 =
      .ok ts :=
  ok_of_mapError h

/-- Every character belongs to the largest set. -/
theorem refusal?_utf8 (text : List Char) : Text.Charset.utf8.refusal? text = none := by
  have hall : text.dropWhile Text.Charset.utf8.holds = [] := by
    rw [List.dropWhile_eq_nil_iff]
    intro c _
    refine decide_eq_true ?_
    rcases c.valid with hlow | ⟨-, hhigh⟩
    · exact Nat.lt_trans hlow (by decide)
    · exact hhigh
  rw [Text.Charset.refusal?, hall]

theorem encoding_utf8_accepts : (Sink.encoding .utf8).Accepts := by
  intro count text
  show (Text.Charset.utf8.refusal? text.toList).map _ = none
  rw [refusal?_utf8]
  rfl

/-- The program can write to where it is asked to, in lines of a width that it has. -/
structure CanWrite (around : Surroundings) (arguments : Arguments) : Prop where
  given : arguments.lineWidth ≠ .nothing
  width : WidthOk arguments.lineWidth.columns?
  charset : arguments.output = none → around.charset = .utf8
  opens : ∀ path, arguments.output = some path →
    ∃ opened, around.files.create path = .ok opened

/-- What the tokens come to is delivered, with the end of its last line, or it is reported that they
are nested too deeply to be written. -/
theorem preprocessAs_writes {ts : List Token} (h : CanWrite around arguments)
    (hconfig : (loadConfig around arguments).2 = .ok config)
    (hread : (readTokens around config arguments).1 = .ok ts) :
    (Token.levelsAll ts 1 ≤ around.limits.nesting →
      (preprocessAs around arguments).result = .ok () ∧
      Delivered around arguments (Token.text arguments.lineWidth.columns? ts ++ arguments.ending)
        (preprocessAs around arguments).stdout (preprocessAs around arguments).files) ∧
    (around.limits.nesting < Token.levelsAll ts 1 →
      (preprocessAs around arguments).result =
        .error (.ofFailure preprocessing (.error (.tooDeep "written")))) := by
  have hts := tokenizeFrom_genuine (tokenizeFrom_of_readTokens hread)
  obtain ⟨hstdout, -, hfile⟩ := preprocessAs_of_tokens hconfig hread
  rcases houtput : arguments.output with _ | path
  · obtain ⟨hok, hdeep⟩ :=
      writeOutput_eq hts h.given h.width encoding_utf8_accepts around.limits.nesting
    obtain ⟨hresult, hshown, hfiles⟩ := hstdout houtput
    rw [h.charset houtput] at hresult hshown
    rw [hresult, hshown, hfiles]
    refine ⟨fun hle => ?_, hdeep⟩
    rw [hok hle, Delivered, houtput]
    exact ⟨rfl, Arguments.output_after .., rfl⟩
  · obtain ⟨⟨place, files⟩, hopened⟩ := h.opens path houtput
    obtain ⟨hok, hdeep⟩ :=
      writeOutput_eq hts h.given h.width Sink.unlimited_accepts around.limits.nesting
    obtain ⟨hresult, hshown, hfiles⟩ := hfile path place files houtput hopened
    rw [hresult, hshown, hfiles]
    refine ⟨fun hle => ?_, hdeep⟩
    rw [hok hle, Sink.unlimited, Arguments.output_after, Delivered, houtput]
    exact ⟨rfl, rfl, Files.rewritten_store hopened _⟩

/-! ### How it ends -/

/-- The program has gone through its stages, and ended with what they have come to. -/
structure Ends (around : Surroundings) (arguments : Arguments) (progress : Progress)
    (done : Result) : Prop where
  stdout : done.stdout = progress.stdout
  files : done.files = progress.files
  warnings : done.warnings = progress.warnings
  stderr : done.stderr = logged around arguments.verbose progress
  succeeds (h : progress.result = .ok ()) : done.outcome = .code 0
  reports {context cause : String} (h : progress.result = .error (.reported context cause)) :
    done.outcome = .code 1
  escapes {e : Escape} (h : progress.result = .error (.escape e)) : done.outcome = .escape e

theorem run_ends {words : List String} (hparse : Arguments.parse words = .ok arguments)
    (hlicense : arguments.license = false) :
    Ends around arguments (preprocessAs around arguments) (run around words) := by
  constructor
  case stdout | files | warnings | stderr =>
    simp only [run, hparse, hlicense, Bool.false_eq_true, if_false]
  case succeeds =>
    intro h
    simp only [run, hparse, hlicense, Bool.false_eq_true, if_false, h]
  case reports =>
    intro context cause h
    simp only [run, hparse, hlicense, Bool.false_eq_true, if_false, h]
  case escapes =>
    intro e h
    simp only [run, hparse, hlicense, Bool.false_eq_true, if_false, h]

/-- A program that gives up does not end well. -/
theorem Ends.outcome_ne {progress : Progress} {done : Result}
    (h : Ends around arguments progress done) (hresult : progress.result = .error abort) :
    done.outcome ≠ .code 0 := by
  cases abort with
  | reported context cause =>
    rw [h.reports hresult]
    simp
  | escape e =>
    rw [h.escapes hresult]
    simp

/-- Nothing is logged when all is well. -/
theorem logged_of_ok {progress : Progress} (h : progress.result = .ok ()) :
    logged around false progress = "" := by
  simp only [logged, h, Bool.false_eq_true, if_false, List.map_nil]
  rfl

/-- What is reported is logged with what it was about. -/
theorem logged_of_reported {progress : Progress} {context cause : String}
    (h : progress.result = .error (.reported context cause)) :
    logged around false progress =
      logLine around.paint? Level.error (context ++ "\n\n" ++ cause) ++ "\n" := by
  simp only [logged, h, Bool.false_eq_true, if_false, List.map_nil]
  exact String.empty_append

end Command

end Unroll
