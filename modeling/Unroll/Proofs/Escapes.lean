import Unroll.Proofs.CommandLine
import Unroll.Proofs.Documents
import Unroll.Proofs.Interruptions
import Unroll.Proofs.Writing

/-!
# What escapes the program

The command line program catches what goes wrong at each of its stages, reports it and ends with the
code one. Of what can go wrong at a stage it does not catch everything.

* `Command.Caught` — what is caught, and at which stage;
* `Command.Uncaught` — what is not: a document that is nested too deeply, a path that is none, and a
  width of lines that was taken away;
* `Command.preprocessAs_explained` — nothing else ends preprocessing early;
* `Command.run_contained` — the program ends with a code unless something escapes, and what escapes
  is known, with the text about the license that the standard output cannot hold.
-/

namespace Unroll

/-! ### Reading -/

/-- Reading a stream fails in no other way than with an error of the library, if the stream fails in
an expected way only. -/
theorem tokenize_expected {config : Config} {depth : Nat} {stream : Stream}
    (hstream : stream.ending.isExpected = true) {e : Failure}
    (h : (tokenize config depth stream).1 = .error e) : ∃ error, e = .error error := by
  obtain ⟨chars, ending⟩ := stream
  cases ending with
  | quiet =>
    obtain ⟨hfits, hdeep⟩ := (Lexer.at_ofStream chars).readAll_final config depth
    rcases hread : (Lexer.ofSource (.ofStream ⟨chars, .quiet⟩ Source.chunkSize)).readAll config
      depth with ⟨failure | ts, l⟩
    · simp only [tokenize, hread] at h
      obtain rfl := Except.error.inj h
      by_cases hfit : Machine.Fits config depth ⟨⟨chars, .start, .empty⟩, .top .empty⟩
      · have hprogram := congrArg Prod.fst (hfits hfit)
        rw [hread] at hprogram
        rw [Machine.final, Scope.program] at hprogram
        dsimp only at hprogram
        split at hprogram
        · obtain rfl := Except.error.inj hprogram
          exact ⟨_, rfl⟩
        · cases hprogram
      · have hfailure := hdeep hfit
        rw [hread] at hfailure
        obtain rfl := Except.error.inj hfailure
        exact ⟨_, rfl⟩
    · simp only [tokenize, hread] at h
      cases h
  | fault f =>
    obtain ⟨hbroken, hdeep⟩ := tokenize_fails config depth chars f
    by_cases hfit : (Machine.start chars).Fits config depth
    · have hexpected : f.isExpected = true := hstream
      rw [hbroken hfit, Failure.ofInput, if_pos hexpected] at h
      exact ⟨_, (Except.error.inj h).symm⟩
    · rw [hdeep hfit] at h
      exact ⟨_, (Except.error.inj h).symm⟩

/-! ### Writing -/

/-- A sink refuses no text but for its characters. -/
def Sink.Encodes (sink : Sink) : Prop :=
  ∀ count text f, sink.refuses count text = some f → ∃ run, f = .unencodable run

theorem Sink.encodes_encoding (charset : Text.Charset) : Encodes (.encoding charset) := by
  intro count text f h
  obtain ⟨run, -, hrun⟩ := Option.map_eq_some_iff.1 h
  exact ⟨run, hrun.symm⟩

theorem Sink.encodes_unlimited : Encodes .unlimited := by
  intro count text f h
  cases h

namespace Command

variable {around : Surroundings} {arguments : Arguments} {config : Config} {abort : Abort}

/-! ### What is caught and what is not -/

/-- What the program catches, with its report: what it was about, and what happened. -/
inductive Caught (around : Surroundings) (arguments : Arguments) : String → String → Prop where
  /-- the configuration file is not what it should be -/
  | document {path : String} {e : Config.FileFault} (hpath : arguments.configFile = some path)
      (h : (Config.ofFile around.files around.limits.document path).2 = .error e)
      (hexpected : e.Expected) :
      Caught around arguments s!"failed to parse config '{path}'" e.message
  /-- the symbols contradict each other -/
  | symbols {f : Settings.Fault} (hpath : arguments.configFile = none)
      (h : Config.ofSettings arguments.settings = .error f) (hinvalid : f.Invalid) :
      Caught around arguments "invalid configuration" f.message
  /-- the system does not open the input -/
  | input {path : String} {f : Fault} (hinput : arguments.input = some path)
      (h : around.files.open? path = .error f) (hsystem : f.isSystem = true) :
      Caught around arguments (opening path) f.message
  /-- reading the program has failed with an error of the library -/
  | program {config : Config} {e : Error} {text : String}
      (hconfig : (loadConfig around arguments).2 = .ok config)
      (h : (tokenizeFrom around.files config around.limits.nesting (arguments.origin around)).1 =
        .error (.error e)) (htext : e.text? = some text) :
      Caught around arguments preprocessing text
  /-- the system does not open the output -/
  | output {path : String} {f : Fault} (houtput : arguments.output = some path)
      (h : around.files.create path = .error f) (hsystem : f.isSystem = true) :
      Caught around arguments (opening path) f.message
  /-- writing has failed, of the standard output or of groups that are nested too deeply -/
  | writing {e : Error} {text : String}
      (h : e = .tooDeep "written" ∨ ∃ run, e = .output [] (some (.unencodable run)))
      (htext : e.text? = some text) : Caught around arguments preprocessing text

/-- What the program does not catch. -/
inductive Uncaught (around : Surroundings) (arguments : Arguments) : Escape → Prop where
  /-- the configuration file is nested too deeply -/
  | document {path : String} (hpath : arguments.configFile = some path)
      (h : Config.TooDeep around.files around.limits.document path) :
      Uncaught around arguments .documentTooDeep
  /-- no file can have the path of the input -/
  | input {config : Config} {path : String}
      (hconfig : (loadConfig around arguments).2 = .ok config)
      (hinput : arguments.input = some path) (h : '\x00' ∈ path.toList) :
      Uncaught around arguments (.fault .nulInPath)
  /-- no file can have the path of the output -/
  | output {config : Config} {ts : List Token} {path : String}
      (hconfig : (loadConfig around arguments).2 = .ok config)
      (hread : (readTokens around config arguments).1 = .ok ts)
      (houtput : arguments.output = some path) (h : '\x00' ∈ path.toList) :
      Uncaught around arguments (.fault .nulInPath)
  /-- the width of lines was given and taken away -/
  | width {config : Config} {ts : List Token}
      (hconfig : (loadConfig around arguments).2 = .ok config)
      (hread : (readTokens around config arguments).1 = .ok ts)
      (hopens : ∀ path, arguments.output = some path →
        ∃ opened, around.files.create path = .ok opened)
      (h : arguments.lineWidth = .nothing) : Uncaught around arguments .widthMissing

/-- A reason to give up is reported after it was caught, or it was not caught. -/
inductive Explained (around : Surroundings) (arguments : Arguments) : Abort → Prop where
  | caught {context cause : String} (h : Caught around arguments context cause) :
      Explained around arguments (.reported context cause)
  | uncaught {e : Escape} (h : Uncaught around arguments e) :
      Explained around arguments (.escape e)

/-! ### Stage by stage -/

/-- The operators among the symbols have elements, also those that were taken away. -/
theorem Arguments.elements_settings (arguments : Arguments) :
    ∃ vs, Config.elements? arguments.settings.operators = some vs := by
  have hstandard : ∃ vs, Config.elements? Settings.standard.operators = some vs := ⟨_, rfl⟩
  rw [settings]
  generalize Settings.standard = start at hstandard ⊢
  induction arguments.symbols generalizing start with
  | nil => exact hstandard
  | cons symbol symbols ih =>
    rw [List.foldl_cons]
    apply ih
    obtain ⟨role, value⟩ := symbol
    cases role with
    | operator => cases value <;> exact ⟨_, rfl⟩
    | _ => exact hstandard

theorem loadConfig_explained (h : (loadConfig around arguments).2 = .error abort) :
    Explained around arguments abort := by
  rcases hpath : arguments.configFile with _ | path
  · have hload : (loadConfig around arguments).2 =
        (Config.ofSettings arguments.settings).mapError fun e =>
          .reported "invalid configuration" e.message := by
      simp only [loadConfig, hpath]
      rfl
    rw [hload] at h
    rcases hsettings : Config.ofSettings arguments.settings with f | config
    · rw [hsettings] at h
      obtain rfl := Except.error.inj h
      obtain ⟨vs, hvs⟩ := arguments.elements_settings
      exact .caught (.symbols hpath hsettings (Config.ofSettings_error hvs hsettings))
    · rw [hsettings] at h
      cases h
  · rcases hfile : Config.ofFile around.files around.limits.document path with
      ⟨warnings, e | config⟩
    · have herror : (Config.ofFile around.files around.limits.document path).2 = .error e :=
        congrArg Prod.snd hfile
      simp only [loadConfig, hpath, hfile] at h
      obtain rfl := Except.error.inj h
      rcases Config.ofFile_error herror with hexpected | ⟨rfl, hdeep⟩
      · have hcaught := Caught.document hpath herror hexpected
        cases hexpected <;> exact .caught hcaught
      · exact .uncaught (.document hpath hdeep)
    · simp only [loadConfig, hpath, hfile] at h
      cases h

theorem readTokens_explained (hconfig : (loadConfig around arguments).2 = .ok config)
    (h : (readTokens around config arguments).1 = .error abort) :
    Explained around arguments abort := by
  rcases hread : (tokenizeFrom around.files config around.limits.nesting
      (arguments.origin around)).1 with e | ts
  swap
  · rw [readTokens_of_ok hread] at h
    cases h
  have hlibrary : ∀ error, e = .error error → Explained around arguments abort := by
    rintro error rfl
    obtain ⟨text, htext⟩ := tokenizeFrom_error_text hread
    rw [readTokens_of_error hread] at h
    obtain rfl := Except.error.inj h
    rw [Abort.ofFailure, Failure.text?, htext, Option.getD_some]
    exact .caught (.program hconfig hread htext)
  rcases hinput : arguments.input with _ | path
  · have horigin : arguments.origin around = .stream around.stdin := by
      simp only [Arguments.origin, hinput]
    rw [horigin] at hread
    obtain ⟨error, he⟩ := tokenize_expected around.stdin_expected hread
    exact hlibrary error he
  · have horigin : arguments.origin around = .file path := by
      simp only [Arguments.origin, hinput]
    rcases hopen : around.files.open? path with f | bytes
    · have hstream : (Origin.file path).open? around.files = .error f := by
        rw [Origin.open?, hopen]
        rfl
      rw [readTokens_fst, hinput, hread] at h
      rw [horigin] at hread
      simp only [tokenizeFrom, hstream] at hread
      obtain rfl := Except.error.inj hread
      obtain rfl : Abort.ofOpening path f = abort := Except.error.inj h
      rcases Files.open?_error hopen with hsystem | ⟨rfl, hnul⟩
      · rw [Abort.ofOpening, if_pos hsystem]
        exact .caught (.input hinput hopen hsystem)
      · exact .uncaught (.input hconfig hinput hnul)
    · have hstream : (Origin.file path).open? around.files = .ok (.ofBytes bytes) := by
        rw [Origin.open?, hopen]
        rfl
      rw [horigin] at hread
      simp only [tokenizeFrom, hstream] at hread
      obtain ⟨error, he⟩ := tokenize_expected (Stream.ofPieces_isExpected ..) hread
      rw [← horigin] at hstream
      exact hlibrary error he

theorem writeOutput_explained {ts : List Token} (hwidth : WidthOk arguments.lineWidth.columns?)
    (hgiven : arguments.lineWidth ≠ .nothing)
    (hread : (readTokens around config arguments).1 = .ok ts) {sink : Sink}
    (hsink : sink.Encodes)
    (h : (writeOutput around.limits.nesting arguments ts sink).1 = .error abort) :
    Explained around arguments abort := by
  obtain ⟨hgained, hfails⟩ := writeAll_gained
    (tokenizeFrom_over arguments.lineWidth.columns?.isSome (tokenizeFrom_of_readTokens hread))
    (fun hsome => .inr ⟨hsome, rfl⟩) around.limits.nesting sink
  have houtput : ∀ run : Text.Unencodable,
      Explained around arguments (.ofFailure preprocessing (.ofOutput (.unencodable run))) :=
    fun run => .caught (.writing (.inr ⟨run, rfl⟩) rfl)
  rw [writeOutput_of_given hgiven] at h
  rcases hwrite : writeAll around.limits.nesting ts arguments.lineWidth.columns? sink with
    ⟨e | ⟨⟩, after⟩
  · simp only [hwrite] at h
    obtain rfl := Except.error.inj h
    have herror := congrArg Prod.fst hwrite
    obtain ⟨failure, rfl⟩ := writeAll_error hwidth herror
    cases hfails failure herror with
    | refused hrefused =>
      obtain ⟨run, rfl⟩ := hsink _ _ _ hrefused
      exact houtput run
    | tooDeep => exact .caught (.writing (.inl rfl) rfl)
  · simp only [hwrite] at h
    split at h
    · cases h
    · rcases hended : after.write "\n" with ⟨f | ⟨⟩, ended⟩
      · have hrefused := Sink.refuses_of_write (congrArg Prod.fst hended)
        rw [hwrite] at hgained
        rw [hgained.refuses] at hrefused
        obtain ⟨run, rfl⟩ := hsink _ _ _ hrefused
        simp only [hended] at h
        obtain rfl := Except.error.inj h
        exact houtput run
      · simp only [hended] at h
        cases h

/-! ### Preprocessing -/

theorem writeOutput_of_nothing (h : arguments.lineWidth = .nothing) (depth : Nat)
    (ts : List Token) (sink : Sink) :
    (writeOutput depth arguments ts sink).1 = .error (.escape .widthMissing) := by
  simp only [writeOutput, h]

/-- Where preprocessing ends early, it is known why. -/
theorem preprocessAs_explained (hwidth : WidthOk arguments.lineWidth.columns?)
    (h : (preprocessAs around arguments).result = .error abort) :
    Explained around arguments abort := by
  rcases hconfig : (loadConfig around arguments).2 with e | config
  · rw [preprocessAs_of_config_error hconfig] at h
    obtain rfl := Except.error.inj h
    exact loadConfig_explained hconfig
  rcases hread : (readTokens around config arguments).1 with e | ts
  · rw [(preprocessAs_of_read_error hconfig hread).1] at h
    obtain rfl := Except.error.inj h
    exact readTokens_explained hconfig hread
  obtain ⟨hstdout, hunopened, hfile⟩ := preprocessAs_of_tokens hconfig hread
  -- the output is opened before it is seen whether there is a width of lines
  have hwritten : ∀ {sink : Sink}, sink.Encodes →
      (∀ path, arguments.output = some path → ∃ opened, around.files.create path = .ok opened) →
      (writeOutput around.limits.nesting arguments ts sink).1 = .error abort →
        Explained around arguments abort := by
    intro sink hsink hopens hwrite
    by_cases hgiven : arguments.lineWidth = .nothing
    · rw [writeOutput_of_nothing hgiven] at hwrite
      obtain rfl := Except.error.inj hwrite
      exact .uncaught (.width hconfig hread hopens hgiven)
    · exact writeOutput_explained hwidth hgiven hread hsink hwrite
  rcases houtput : arguments.output with _ | path
  · obtain ⟨hresult, -, -⟩ := hstdout houtput
    rw [hresult] at h
    refine hwritten (Sink.encodes_encoding _) (fun path hpath => ?_) h
    rw [houtput] at hpath
    cases hpath
  rcases hcreate : around.files.create path with f | ⟨place, files⟩
  · rw [hunopened path f houtput hcreate] at h
    obtain rfl := Except.error.inj h
    rcases Files.create_error hcreate with hsystem | ⟨rfl, hnul⟩
    · rw [Abort.ofOpening, if_pos hsystem]
      exact .caught (.output houtput hcreate hsystem)
    · exact .uncaught (.output hconfig hread houtput hnul)
  · obtain ⟨hresult, -, -⟩ := hfile path place files houtput hcreate
    rw [hresult] at h
    refine hwritten Sink.encodes_unlimited (fun path' hpath => ?_) h
    rw [houtput] at hpath
    obtain rfl := Option.some.inj hpath
    exact ⟨(place, files), hcreate⟩

/-- What is not caught ends preprocessing. -/
theorem Uncaught.preprocessAs {e : Escape} (h : Uncaught around arguments e) :
    (preprocessAs around arguments).result = .error (.escape e) := by
  cases h with
  | @document path hpath hdeep =>
    have hload : (loadConfig around arguments).2 = .error (.escape .documentTooDeep) := by
      have hfile := hdeep.ofFile
      rcases hof : Config.ofFile around.files around.limits.document path with ⟨warnings, result⟩
      rw [hof] at hfile
      obtain rfl : result = .error (.document .tooDeep) := hfile
      simp only [loadConfig, hpath, hof]
      rfl
    rw [preprocessAs_of_config_error hload]
  | @input config path hconfig hinput hnul =>
    have hread : (readTokens around config arguments).1 = .error (.escape (.fault .nulInPath)) := by
      have hopen : (Origin.file path).open? around.files = .error .nulInPath := by
        rw [Origin.open?, Files.open?_of_nul hnul]
        rfl
      have horigin : arguments.origin around = .file path := by
        simp only [Arguments.origin, hinput]
      rw [readTokens_fst, hinput, horigin]
      simp only [tokenizeFrom, hopen]
      rfl
    exact (preprocessAs_of_read_error hconfig hread).1
  | output hconfig hread houtput hnul =>
    obtain ⟨-, hunopened, -⟩ := preprocessAs_of_tokens hconfig hread
    rw [hunopened _ _ houtput (Files.create_of_nul hnul)]
    rfl
  | width hconfig hread hopens hgiven =>
    obtain ⟨hstdout, -, hfile⟩ := preprocessAs_of_tokens hconfig hread
    rcases houtput : arguments.output with _ | path
    · rw [(hstdout houtput).1, writeOutput_of_nothing hgiven]
    · obtain ⟨⟨place, files⟩, hcreate⟩ := hopens path houtput
      rw [(hfile path place files houtput hcreate).1, writeOutput_of_nothing hgiven]

/-! ### The whole program -/

/-- What is not held comes after what is. -/
theorem refusal?_append {charset : Text.Charset} {held : List Char}
    (h : ∀ c ∈ held, charset.holds c = true) (rest : List Char) :
    charset.refusal? (held ++ rest) =
      (charset.refusal? rest).map fun run =>
        { run with position := held.length + run.position } := by
  rw [Text.Charset.refusal?, List.dropWhile_append_of_pos h, List.takeWhile_append_of_pos h,
    Text.Charset.refusal?]
  rcases rest.dropWhile charset.holds with _ | ⟨c, after⟩
  · rfl
  · simp only [List.length_append, Option.map_some]

/-- The first characters of all belong to every set. -/
theorem holds_of_lt {charset : Text.Charset} {c : Char} (h : decide (c.toNat < 0x80) = true) :
    charset.holds c = true := by
  have hlt := of_decide_eq_true h
  refine decide_eq_true (Nat.lt_of_lt_of_le hlt ?_)
  cases charset <;> decide

theorem holds_of_refusal? {charset : Text.Charset} {text : List Char}
    (h : charset.refusal? text = none) : ∀ c ∈ text, charset.holds c = true := by
  rw [Text.Charset.refusal?] at h
  split at h
  · rename_i hall
    exact List.dropWhile_eq_nil_iff.1 hall
  · cases h

/-- The letter of a name that small character sets do not hold. Before it, the text about the license
has the title of the program, with its version, on a line of its own. -/
def nameRefused (charset : Text.Charset) (version : String) : Text.Unencodable :=
  ⟨charset, (title version).length + 1, 1, 'Ł'⟩

/-- The text about the license is held by the largest character set only. What a smaller one refuses
is a letter of the name in it, if it holds the version before that. -/
theorem showLicense_cases (charset : Text.Charset) (version : String) :
    (charset = .utf8 → ∃ text, showLicense charset version = .ok text) ∧
    (charset ≠ .utf8 → ∃ run, showLicense charset version = .error (.fault (.unencodable run)) ∧
      ((∀ c ∈ version.toList, charset.holds c = true) → run = nameRefused charset version)) := by
  refine ⟨?_, fun hsmall => ?_⟩
  · rintro rfl
    rw [showLicense, refusal?_utf8]
    exact ⟨_, rfl⟩
  have hname : charset.refusal? author.toList = some ⟨charset, 0, 1, 'Ł'⟩ := by
    cases charset with
    | ascii => rfl
    | latin1 => rfl
    | utf8 => exact absurd rfl hsmall
  have hbegin : "bfup ".toList.all (fun c => decide (c.toNat < 0x80)) = true := rfl
  have htext : (credits version).toList = ((title version).toList ++ ['\n']) ++ author.toList := by
    rw [credits, String.toList_append, String.toList_append]
    rfl
  rcases hrefused : charset.refusal? (credits version).toList with _ | run
  · have hheld : ∀ c ∈ author.toList, charset.holds c = true := by
      intro c hc
      refine holds_of_refusal? hrefused c ?_
      rw [htext]
      exact List.mem_append_right _ hc
    rw [← List.append_nil author.toList, refusal?_append hheld] at hname
    cases hname
  refine ⟨run, by simp only [showLicense, hrefused], fun hversion => ?_⟩
  have hheld : ∀ c ∈ (title version).toList ++ ['\n'], charset.holds c = true := by
    have htitle : (title version).toList = "bfup ".toList ++ version.toList := by
      simp [title, program, toString]
    intro c hc
    rw [htitle, List.append_assoc, List.mem_append, List.mem_append] at hc
    rcases hc with hc | hc | hc
    · exact holds_of_lt (List.all_eq_true.1 hbegin c hc)
    · exact hversion c hc
    · obtain rfl := List.mem_singleton.1 hc
      exact holds_of_lt rfl
  rw [htext, refusal?_append hheld, hname] at hrefused
  obtain rfl := Option.some.inj hrefused
  rw [nameRefused, List.length_append, String.length_toList]
  rfl

/-- How the program ends. -/
structure Contained (around : Surroundings) (words : List String) (done : Result) : Prop where
  /-- a command line that is refused, or asks for the help or the version, ends the program with
  one of two codes -/
  refused {exit : Exit} (h : Arguments.parse words = .error exit) :
    done.outcome = .code 0 ∨ done.outcome = .code 2
  /-- the text about the license is shown if the standard output can hold it, and escapes if not: for
  a letter in it, if the version before that can be held -/
  license {arguments : Arguments} (h : Arguments.parse words = .ok arguments)
      (hlicense : arguments.license = true) :
    (around.charset = .utf8 → done.outcome = .code 0) ∧
      (around.charset ≠ .utf8 → ∃ run, done.outcome = .escape (.fault (.unencodable run)) ∧
        ((∀ c ∈ around.version.toList, around.charset.holds c = true) →
          run = nameRefused around.charset around.version))
  /-- preprocessing succeeds, or it ends early of something that is caught, or of something that is
  not -/
  ends {arguments : Arguments} (h : Arguments.parse words = .ok arguments)
      (hlicense : arguments.license = false) :
    done.outcome = .code 0 ∨
      (done.outcome = .code 1 ∧ ∃ context cause,
        (preprocessAs around arguments).result = .error (.reported context cause) ∧
        Caught around arguments context cause) ∨
      ∃ e, done.outcome = .escape e ∧ Uncaught around arguments e
  /-- what is not caught always escapes -/
  escapes {arguments : Arguments} (h : Arguments.parse words = .ok arguments)
      (hlicense : arguments.license = false) {e : Escape} (he : Uncaught around arguments e) :
    done.outcome = .escape e
  /-- there is no exit code but zero and one, and nothing escapes, if the standard output can hold
  the license that is asked for, the configuration file is not nested too deeply, files can have the
  paths that are given, and the width of lines was not taken away -/
  contained {arguments : Arguments} (h : Arguments.parse words = .ok arguments)
      (hcharset : arguments.license = true → around.charset = .utf8)
      (hdocument : ∀ path, arguments.configFile = some path →
        ¬ Config.TooDeep around.files around.limits.document path)
      (hinput : ∀ path, arguments.input = some path → '\x00' ∉ path.toList)
      (houtput : ∀ path, arguments.output = some path → '\x00' ∉ path.toList)
      (hwidth : arguments.lineWidth ≠ .nothing) :
    done.outcome = .code 0 ∨ done.outcome = .code 1

/-- Whatever the command line, the files, the input and the standard output are, the program ends
with an exit code, and what goes wrong is caught, but for what is known to escape. -/
theorem run_contained (around : Surroundings) (words : List String) :
    Contained around words (run around words) := by
  have hlicensed : ∀ {arguments : Arguments}, Arguments.parse words = .ok arguments →
      arguments.license = true →
      (around.charset = .utf8 → (run around words).outcome = .code 0) ∧
        (around.charset ≠ .utf8 → ∃ refused,
          (run around words).outcome = .escape (.fault (.unencodable refused)) ∧
          ((∀ c ∈ around.version.toList, around.charset.holds c = true) →
            refused = nameRefused around.charset around.version)) := by
    intro arguments hparse hlicense
    obtain ⟨hlarge, hsmall⟩ := showLicense_cases around.charset around.version
    refine ⟨fun hcharset => ?_, fun hcharset => ?_⟩
    · obtain ⟨text, htext⟩ := hlarge hcharset
      simp only [run, hparse, hlicense, if_true, htext]
    · obtain ⟨refused, htext, hletter⟩ := hsmall hcharset
      refine ⟨refused, ?_, hletter⟩
      simp only [run, hparse, hlicense, if_true, htext]
  have hended : ∀ {arguments : Arguments}, Arguments.parse words = .ok arguments →
      arguments.license = false → (run around words).outcome = .code 0 ∨
      ((run around words).outcome = .code 1 ∧ ∃ context cause,
        (preprocessAs around arguments).result = .error (.reported context cause) ∧
        Caught around arguments context cause) ∨
      ∃ e, (run around words).outcome = .escape e ∧ Uncaught around arguments e := by
    intro arguments hparse hlicense
    have hends : Ends around arguments (preprocessAs around arguments) (run around words) :=
      run_ends hparse hlicense
    rcases hresult : (preprocessAs around arguments).result with abort | ⟨⟩
    · cases preprocessAs_explained (Arguments.widthOk hparse) hresult with
      | caught hcaught => exact .inr (.inl ⟨hends.reports hresult, _, _, rfl, hcaught⟩)
      | uncaught huncaught => exact .inr (.inr ⟨_, hends.escapes hresult, huncaught⟩)
    · exact .inl (hends.succeeds hresult)
  constructor
  case refused =>
    intro exit hparse
    cases exit with
    | help | version =>
      simp only [run, hparse]
      exact .inl rfl
    | usage e =>
      simp only [run, hparse]
      exact .inr rfl
  case license => exact hlicensed
  case ends => exact hended
  case escapes =>
    intro arguments hparse hlicense e huncaught
    exact (run_ends hparse hlicense).escapes huncaught.preprocessAs
  case contained =>
    intro arguments hparse hcharset hdocument hinput houtput hwidth
    cases hlicense : arguments.license with
    | true => exact .inl ((hlicensed hparse hlicense).1 (hcharset hlicense))
    | false =>
      rcases hended hparse hlicense with hzero | ⟨hone, -⟩ | ⟨e, -, huncaught⟩
      · exact .inl hzero
      · exact .inr hone
      · cases huncaught with
        | document hpath hdeep => exact absurd hdeep (hdocument _ hpath)
        | input _ hpath hnul => exact absurd hnul (hinput _ hpath)
        | output _ _ hpath hnul => exact absurd hnul (houtput _ hpath)
        | width _ _ _ hnothing => exact absurd hnothing hwidth

/-! ### Programs from which something escapes -/

/-- A configuration file was given, and nothing else. -/
def Arguments.configured : Arguments where
  input := none
  output := none
  configFile := some "p"
  symbols := []
  lineWidth := .columns standardWidth
  noNewline := false
  license := false
  verbose := false

theorem Arguments.parse_configured : Arguments.parse ["-C", "p"] = .ok configured := by
  have hclassified : Word.classifyAll ["-C", "p"] =
      .ok [.option .configFile "-C" none, .plain "p"] := by decide
  have hwords : Given.empty.applyWords true [] [.option .configFile "-C" none, .plain "p"] =
      .ok ({ Given.empty with configFile := some (.word "p") }, []) := by
    simp only [Given.applyWords]
    rfl
  refine parse_of_given ⟨_, hclassified, hwords⟩ ?_
  show Except.ok (Arguments.mk none none (OptionValue.word "p").path? []
    (.columns standardWidth) false false false) = _
  rw [OptionValue.path?_p, configured]

/-- The text about the license is asked for. -/
def Arguments.licensed : Arguments where
  input := none
  output := none
  configFile := none
  symbols := []
  lineWidth := .columns standardWidth
  noNewline := false
  license := true
  verbose := false

theorem Arguments.parse_licensed : Arguments.parse ["-L"] = .ok licensed := by
  have hclassified : Word.classifyAll ["-L"] = .ok [.option .license "-L" none] := by decide
  have hwords : Given.empty.applyWords true [] [.option .license "-L" none] =
      .ok ({ Given.empty with license := true }, []) := by
    rw [Given.applyWords]
    rfl
  exact parse_of_given ⟨_, hclassified, hwords⟩ rfl

/-- The width of lines is taken away. -/
def Arguments.unmeasured : Arguments where
  input := none
  output := none
  configFile := none
  symbols := []
  lineWidth := .nothing
  noNewline := false
  license := false
  verbose := false

theorem Arguments.parse_unmeasured : Arguments.parse ["-l=--"] = .ok unmeasured := by
  have hclassified : Word.classifyAll ["-l=--"] = .ok [.option .lineWidth "-l" (some "--")] := by
    decide
  have hwords : Given.empty.applyWords true [] [.option .lineWidth "-l" (some "--")] =
      .ok ({ Given.empty with lineWidth := some .nothing }, []) := by
    rw [Given.applyWords]
    rfl
  exact parse_of_given ⟨_, hclassified, hwords⟩ rfl

/-- A configuration file of opening brackets stands beside a program of one operator. -/
def Surroundings.brackets (n : Nat) : Surroundings :=
  { Surroundings.ofText ['+'] with files := ⟨[(["p"], .file (List.replicate n 0x5B))]⟩ }

theorem Surroundings.open?_brackets (n : Nat) :
    (brackets n).files.open? "p" = .ok (List.replicate n 0x5B) := by
  rw [Files.open?, Files.locate, Path.names_p]
  rfl

theorem Surroundings.tooDeep_brackets {n : Nat} (h : documentLimit < n) :
    Config.TooDeep (brackets n).files (brackets n).limits.document "p" :=
  Config.tooDeep_brackets h (open?_brackets n)

/-- A configuration file with too many opening brackets, which escapes, and one with too few, which
does not. -/
theorem run_contained_brackets :
    (run (.brackets 1000) ["-C", "p"]).outcome = .escape .documentTooDeep ∧
    ((run (.brackets 2) ["-C", "p"]).outcome = .code 0 ∨
      (run (.brackets 2) ["-C", "p"]).outcome = .code 1) := by
  have hparse := Arguments.parse_configured
  refine ⟨?_, ?_⟩
  · have hdeep := Surroundings.tooDeep_brackets (by decide : documentLimit < 1000)
    exact (run_contained (.brackets 1000) ["-C", "p"]).escapes hparse rfl (.document rfl hdeep)
  · refine (run_contained (.brackets 2) ["-C", "p"]).contained hparse (fun _ => rfl) ?_ ?_ ?_ ?_
    · rintro path hpath ⟨bytes, document, hbytes, hdecoded, hdeep⟩
      obtain rfl := Option.some.inj hpath
      obtain rfl : _ = bytes := Except.ok.inj ((Surroundings.open?_brackets 2).symm.trans hbytes)
      obtain rfl : ['[', '['] = document := Except.ok.inj hdecoded
      have hmalformed : Json.read (Surroundings.brackets 2).limits.document ['[', '['] =
          .error (.malformed .expectedValue 2) := rfl
      rw [hmalformed] at hdeep
      cases hdeep
    · intro path hpath
      cases hpath
    · intro path hpath
      cases hpath
    · simp [Arguments.configured]

/-- Something escapes the program at three of its stages. -/
theorem run_escapes :
    (run { Surroundings.ofText [] with charset := .ascii } ["-L"]).outcome =
      .escape (.fault (.unencodable ⟨.ascii, 11, 1, 'Ł'⟩)) ∧
    (run (.brackets 1000) ["-C", "p"]).outcome = .escape .documentTooDeep ∧
    (run (.brackets 0) ["-l=--"]).outcome = .escape .widthMissing := by
  refine ⟨?_, ?_, ?_⟩
  · rw [run, Arguments.parse_licensed]
    rfl
  · have huncaught : Uncaught (.brackets 1000) .configured .documentTooDeep :=
      .document rfl (Surroundings.tooDeep_brackets (by decide))
    exact (run_ends Arguments.parse_configured rfl).escapes huncaught.preprocessAs
  · have huncaught : Uncaught (.brackets 0) .unmeasured .widthMissing := by
      have hconfig : (loadConfig (.brackets 0) .unmeasured).2 = .ok .standard := rfl
      have hread : (readTokens (.brackets 0) .standard .unmeasured).1 = .ok [.operator "+"] := rfl
      refine .width hconfig hread ?_ rfl
      intro path hpath
      cases hpath
    exact (run_ends Arguments.parse_unmeasured rfl).escapes huncaught.preprocessAs

end Command

end Unroll
