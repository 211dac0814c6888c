import Unroll.Proofs.Destination

/-!
# The command line and the library

The command line program does not call what the library does in one piece. It goes through the
same steps, with a configuration, a width of lines and messages of its own. It comes to the same
all the same.

* `Command.Arguments.configFrom` — the configuration that the library makes of what is asked for;
* `Command.loadConfig_eq` — the configuration of the command line program is the same;
* `Command.preprocessAs_agrees` — its output and its errors are those of the library;
* `Command.Agrees`, `Command.run_agrees` — what it leaves, and what it reports.
-/

namespace Unroll.Command

/-! ### The configuration -/

/-- The symbols as fields of settings. -/
def Arguments.fields (arguments : Arguments) : List (CodeText × Json.Value) :=
  arguments.symbols.map fun (role, value) => (↑role.key, value.setting)

/-- The settings that the symbols change. -/
def Arguments.settings (arguments : Arguments) : Settings :=
  arguments.symbols.foldl (fun settings (role, value) => settings.set value.setting role)
    .standard

/-- The configuration that the library makes of the symbols, or of the configuration file, with the
warnings about it. -/
def Arguments.configFrom (around : Surroundings) (arguments : Arguments) :
    List String × Except Config.FileFault Config :=
  match arguments.configFile with
  | some path => Config.ofFile around.files around.limits.document path
  | none =>
    ([], (Settings.ofFields arguments.fields >>= Config.ofSettings).mapError fun e =>
      .document (.invalid e))

/-- What is reported about a configuration that is wrong. -/
def Arguments.configContext (arguments : Arguments) : String :=
  match arguments.configFile with
  | some path => s!"failed to parse config '{path}'"
  | none => "invalid configuration"

/-- Fields that are named for roles give these roles, one after the other. -/
theorem ofFields_fields (arguments : Arguments) :
    Settings.ofFields arguments.fields = .ok arguments.settings := by
  rw [Settings.ofFields, Arguments.fields, Arguments.settings]
  generalize Settings.standard = settings
  induction arguments.symbols generalizing settings with
  | nil => rfl
  | cons symbol symbols ih =>
    rw [List.map_cons, List.foldlM_cons, List.foldl_cons, ← ih]
    simp only [Role.ofKey?_key]
    rfl

variable {around : Surroundings} {arguments : Arguments} {config : Config}

/-- The command line program has the configuration of the library, with the same warnings, and
reports what is wrong with it. -/
theorem loadConfig_eq (around : Surroundings) (arguments : Arguments) :
    (loadConfig around arguments).1 = (arguments.configFrom around).1 ∧
    (∀ config, (arguments.configFrom around).2 = .ok config →
      (loadConfig around arguments).2 = .ok config) ∧
    (∀ e, (arguments.configFrom around).2 = .error e → e ≠ .document .tooDeep →
      (loadConfig around arguments).2 =
        .error (.reported arguments.configContext e.message)) := by
  rcases hfile : arguments.configFile with _ | path
  · have hload : loadConfig around arguments =
        ([], (Config.ofSettings arguments.settings).mapError fun e =>
          .reported "invalid configuration" e.message) := by
      simp only [loadConfig, hfile]
      rfl
    have hfrom : arguments.configFrom around =
        ([], (Config.ofSettings arguments.settings).mapError fun e => .document (.invalid e)) := by
      simp only [Arguments.configFrom, hfile, ofFields_fields]
      rfl
    rw [hload, hfrom, Arguments.configContext, hfile]
    rcases Config.ofSettings arguments.settings with fault | c
    · refine ⟨rfl, fun c hc => (by cases hc), fun e he _ => ?_⟩
      obtain rfl := Except.error.inj he
      rfl
    · exact ⟨rfl, fun c' hc => congrArg Except.ok (Except.ok.inj hc), fun e he => (by cases he)⟩
  · have hfrom : arguments.configFrom around =
        Config.ofFile around.files around.limits.document path := by
      rw [Arguments.configFrom, hfile]
    rw [hfrom, Arguments.configContext, hfile]
    rcases hread : Config.ofFile around.files around.limits.document path with ⟨warnings, fault | c⟩
    · simp only [loadConfig, hfile, hread]
      refine ⟨trivial, fun c hc => (by cases hc), fun e he hne => ?_⟩
      obtain rfl := Except.error.inj he
      cases fault with
      | fault f => rfl
      | document d =>
        cases d with
        | tooDeep => exact absurd rfl hne
        | malformed | oversized | notObject | operatorsNotText | invalid => rfl
    · simp only [loadConfig, hfile, hread]
      exact ⟨trivial, fun c' hc => congrArg Except.ok (Except.ok.inj hc),
        fun e he => (by cases he)⟩

/-! ### Reports -/

/-- What a report begins with. It is bold and red if the standard error output is a terminal. -/
def Surroundings.errorLabel (around : Surroundings) : String :=
  if around.terminal then around.paint.boldRed "error:" else "error:"

/-- What is reported: what it was about, and what happened. -/
def errorReport (around : Surroundings) (context cause : String) : String :=
  around.errorLabel ++ " " ++ context ++ "\n\n" ++ cause ++ "\n"

theorem logLine_error (around : Surroundings) (message : String) :
    logLine around.paint? Level.error message = around.errorLabel ++ " " ++ message := by
  rw [Surroundings.paint?, Surroundings.errorLabel]
  cases around.terminal <;> rfl

theorem Ends.reported {progress : Progress} {done : Result} {context cause : String}
    (h : Ends around arguments progress done) (hverbose : arguments.verbose = false)
    (hresult : progress.result = .error (.reported context cause)) :
    done.outcome = .code 1 ∧ done.stderr = errorReport around context cause := by
  refine ⟨h.reports hresult, ?_⟩
  rw [h.stderr, hverbose, logged_of_reported hresult, logLine_error, errorReport]
  simp only [String.append_assoc]

/-! ### The program -/

/-- What the library makes of the input, in lines of the same width. -/
def viaLibrary (around : Surroundings) (arguments : Arguments) (config : Config) : Preprocessed :=
  preprocess around.files around.limits.nesting (arguments.origin around) (.sink .unlimited) config
    arguments.lineWidth.columns?

/-- The output of the command line program is that of the library, with the end of its last line,
and so are its errors. -/
theorem preprocessAs_agrees (h : CanWrite around arguments)
    (hconfig : (loadConfig around arguments).2 = .ok config) :
    let library := viaLibrary around arguments config
    let progress := preprocessAs around arguments
    (library.result = .ok () → progress.result = .ok () ∧ ∃ sink, library.target = .sink sink ∧
      Delivered around arguments (sink.output ++ arguments.ending) progress.stdout
        progress.files) ∧
    (∀ e, library.result = .error (.error e) → ∃ text, e.text? = some text ∧
      progress.result = .error (.reported preprocessing text) ∧
      ((tokenizeFrom around.files config around.limits.nesting (arguments.origin around)).1 =
          .error (.error e) → progress.stdout = "" ∧ progress.files = around.files)) := by
  intro library progress
  rcases htokens : (tokenizeFrom around.files config around.limits.nesting
      (arguments.origin around)).1 with e | ts
  · have hlibrary : library.result = .error e :=
      (preprocess_of_error h.width htokens (.sink .unlimited)).1
    rw [hlibrary]
    refine ⟨fun hok => (by cases hok), fun e' he => ?_⟩
    obtain rfl := Except.error.inj he
    obtain ⟨text, htext⟩ := tokenizeFrom_error_text htokens
    obtain ⟨hresult, hstdout, hfiles⟩ :=
      preprocessAs_of_read_error hconfig (readTokens_of_error htokens)
    refine ⟨text, htext, hresult.trans ?_, fun _ => ⟨hstdout, hfiles⟩⟩
    rw [Abort.ofFailure, Failure.text?, htext, Option.getD_some]
  · obtain ⟨hok, hdeep⟩ := preprocess_unlimited h.width htokens
    obtain ⟨hwritten, hrefused⟩ := preprocessAs_writes h hconfig (readTokens_of_ok htokens)
    -- both stop at the same depth, if at all
    rcases Nat.lt_or_ge around.limits.nesting (Token.levelsAll ts 1) with hlt | hle
    · have hlibrary : library.result = _ := hdeep hlt
      rw [hlibrary]
      refine ⟨fun hok => (by cases hok), fun e he => ?_⟩
      obtain rfl := Failure.error.inj (Except.error.inj he)
      exact ⟨_, rfl, hrefused hlt, fun hread => (by cases hread)⟩
    · obtain ⟨hlibrary, htarget⟩ : library.result = .ok () ∧ library.target = _ := hok hle
      obtain ⟨hresult, hdelivered⟩ := hwritten hle
      rw [hlibrary]
      refine ⟨fun _ => ⟨hresult, _, htarget, ?_⟩, fun e he => (by cases he)⟩
      rw [Sink.unlimited, Token.output_after]
      exact hdelivered

/-- What the command line program leaves, compared with what the library does. -/
structure Agrees (around : Surroundings) (words : List String) (arguments : Arguments)
    (done : Result) : Prop where
  /-- lines are not broken if that is not wanted, or else have the width that was given or the
  standard width -/
  width : ∃ g : Given, g.FromWords words ∧ g.toArguments = .ok arguments ∧
    (g.noAlign = true → arguments.lineWidth = .unbounded) ∧
    (∀ width, g.lineWidth = some width → arguments.lineWidth = width) ∧
    (g.noAlign = false → g.lineWidth = none → arguments.lineWidth = .columns 32)
  warnings : done.warnings = (arguments.configFrom around).1
  /-- what is wrong with the configuration is reported, and nothing else is done -/
  unconfigured {e : Config.FileFault} (h : (arguments.configFrom around).2 = .error e)
      (hdeep : e ≠ .document .tooDeep) :
    done.outcome = .code 1 ∧ done.stdout = "" ∧ done.files = around.files ∧
      done.stderr = errorReport around arguments.configContext e.message
  /-- the output of the library is delivered, and nothing is reported -/
  succeeds {config : Config} (hconfig : (arguments.configFrom around).2 = .ok config)
      (hgiven : arguments.lineWidth ≠ .nothing)
      (h : (viaLibrary around arguments config).result = .ok ()) :
    done.outcome = .code 0 ∧ done.stderr = "" ∧
      ∃ sink, (viaLibrary around arguments config).target = .sink sink ∧
        Delivered around arguments (sink.output ++ arguments.ending) done.stdout done.files
  /-- an error of the library is reported, and everything is left as it was if reading has
  failed -/
  fails {config : Config} {e : Error}
      (hconfig : (arguments.configFrom around).2 = .ok config)
      (hgiven : arguments.lineWidth ≠ .nothing)
      (h : (viaLibrary around arguments config).result = .error (.error e)) :
    ∃ text, e.text? = some text ∧ done.outcome = .code 1 ∧
      done.stderr = errorReport around "failure while preprocessing" text ∧
      ((tokenizeFrom around.files config around.limits.nesting (arguments.origin around)).1 =
          .error (.error e) → done.stdout = "" ∧ done.files = around.files)

/-- The command line program comes to the same as the library, where it can write to its
destination. -/
theorem run_agrees (around : Surroundings) {words : List String} {arguments : Arguments}
    (hparse : Arguments.parse words = .ok arguments) (hlicense : arguments.license = false)
    (hverbose : arguments.verbose = false)
    (hcharset : arguments.output = none → around.charset = .utf8)
    (hopens : ∀ path, arguments.output = some path →
      ∃ opened, around.files.create path = .ok opened) :
    Agrees around words arguments (run around words) := by
  have hends : Ends around arguments (preprocessAs around arguments) (run around words) :=
    run_ends hparse hlicense
  have hwrite : arguments.lineWidth ≠ .nothing → CanWrite around arguments := fun hgiven =>
    ⟨hgiven, Arguments.widthOk hparse, hcharset, hopens⟩
  obtain ⟨hwarnings, hload, hfault⟩ := loadConfig_eq around arguments
  constructor
  case width =>
    obtain ⟨g, hg, harguments⟩ := Arguments.parse_ok hparse
    exact ⟨g, hg, harguments, Arguments.lineWidth_of_given hg.measured harguments⟩
  case warnings => rw [hends.warnings, preprocessAs_warnings, hwarnings]
  case unconfigured =>
    intro e he hne
    rw [preprocessAs_of_config_error (hfault e he hne)] at hends
    obtain ⟨hcode, hstderr⟩ := hends.reported hverbose rfl
    exact ⟨hcode, hends.stdout, hends.files, hstderr⟩
  case succeeds =>
    intro config hc hgiven hok
    obtain ⟨hresult, hdelivered⟩ := (preprocessAs_agrees (hwrite hgiven) (hload config hc)).1 hok
    rw [← hends.stdout, ← hends.files] at hdelivered
    refine ⟨hends.succeeds hresult, ?_, hdelivered⟩
    rw [hends.stderr, hverbose, logged_of_ok hresult]
  case fails =>
    intro config e hc hgiven he
    obtain ⟨text, htext, hresult, huntouched⟩ :=
      (preprocessAs_agrees (hwrite hgiven) (hload config hc)).2 e he
    obtain ⟨hcode, hstderr⟩ := hends.reported hverbose hresult
    rw [← hends.stdout, ← hends.files] at huntouched
    exact ⟨text, htext, hcode, hstderr, huntouched⟩

/-- Only the last line is to be left open. -/
def Arguments.bare : Arguments where
  input := none
  output := none
  configFile := none
  symbols := []
  lineWidth := .columns standardWidth
  noNewline := true
  license := false
  verbose := false

theorem Arguments.parse_bare : Arguments.parse ["-b"] = .ok bare := by
  have hclassified : Word.classifyAll ["-b"] = .ok [.option .noNewline "-b" none] := by decide
  have hwords : Given.empty.applyWords true [] [.option .noNewline "-b" none] =
      .ok ({ Given.empty with noNewline := true }, []) := by
    rw [Given.applyWords]
    rfl
  exact parse_of_given ⟨_, hclassified, hwords⟩ rfl

/-- A program that is right and one that is not, without the end of the last line. The carriage
return in front of the second is a character like any other. -/
theorem run_agrees_bare :
    let right := run (.ofText ['#', '2', '+']) ["-b"]
    let wrong := run (.ofText ['\r', ')']) ["-b"]
    (right.outcome = .code 0 ∧ right.stdout = "++" ∧ right.stderr = "") ∧
    (wrong.outcome = .code 1 ∧ wrong.stdout = "" ∧ wrong.stderr =
      "error: failure while preprocessing\n\n[1:2]: ')' must have a preceding '('.\n") := by
  intro right wrong
  have hopens : ∀ stdin path, Arguments.bare.output = some path →
      ∃ opened, (Surroundings.ofText stdin).files.create path = .ok opened := by
    intro stdin path hpath
    cases hpath
  have hagrees := fun stdin =>
    run_agrees (.ofText stdin) Arguments.parse_bare rfl rfl (fun _ => rfl) (hopens stdin)
  have hgiven : Arguments.bare.lineWidth ≠ .nothing := by simp [Arguments.bare]
  have hconfig : ∀ stdin, (Arguments.bare.configFrom (.ofText stdin)).2 = .ok .standard :=
    fun _ => rfl
  constructor
  · obtain ⟨hcode, hstderr, sink, htarget, hstdout, -⟩ :=
      (hagrees ['#', '2', '+']).succeeds (hconfig _) hgiven rfl
    obtain rfl := Target.sink.inj htarget
    exact ⟨hcode, hstdout, hstderr⟩
  · obtain ⟨text, htext, hcode, hstderr, huntouched⟩ :=
      (hagrees ['\r', ')']).fails (hconfig _) hgiven rfl
    obtain rfl := Option.some.inj htext
    exact ⟨hcode, (huntouched rfl).1, hstderr⟩

/-- On a terminal, an error is not reported in plain text. -/
theorem run_not_agrees :
    let around : Surroundings := { Surroundings.ofText [')'] with terminal := true }
    Arguments.parse ["-b"] = .ok .bare ∧
    (Arguments.bare.configFrom around).2 = .ok .standard ∧
    ∃ e, (viaLibrary around .bare .standard).result = .error (.error e) ∧
      e.text? = some "[1:1]: ')' must have a preceding '('." ∧
      (run around ["-b"]).stderr ≠
        "error: failure while preprocessing\n\n[1:1]: ')' must have a preceding '('.\n" := by
  intro around
  have hwrite : CanWrite around .bare := by
    refine ⟨by simp [Arguments.bare], Arguments.widthOk Arguments.parse_bare, fun _ => rfl, ?_⟩
    intro path hpath
    cases hpath
  refine ⟨Arguments.parse_bare, rfl, _, rfl, rfl, ?_⟩
  obtain ⟨text, htext, hresult, -⟩ := (preprocessAs_agrees hwrite rfl).2 _ rfl
  obtain rfl := Option.some.inj htext
  obtain ⟨-, hstderr⟩ := (run_ends Arguments.parse_bare rfl).reported rfl hresult
  rw [hstderr]
  decide

end Unroll.Command
