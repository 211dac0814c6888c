import Unroll.Command.Arguments
import Unroll.Proofs.Results

/-!
# The arguments of a command line

The words of a command line use options, one after the other, in whatever way they are taken apart.
What every option keeps is kept by all the words.

* `Command.Use`, `Command.Use.ofLine` — the options that a command line uses, each with its value;
* `Command.Given.Takes`, `Command.Given.applyWords_cons` — what the next words do;
* `Command.Given.Applied`, `Command.Given.applied` — what one option does;
* `Command.Given.applyWords_keeps` — what every option keeps of the options and what they give;
* `Command.Given.applyWords_due` — why words end the program early;
* `Command.Given.FromWords`, `Command.Given.FromWords.keeps` — what a command line gives;
* `Command.Arguments.lineWidth_of_given` — the width of lines that was given or is the standard;
* `Command.Arguments.width_pos` — a width that was given is positive.
-/

namespace Unroll.Command

/-! ### The options that are used -/

/-- An option that is used, with its value. -/
structure Use where
  option : Opt
  value : OptionValue
deriving DecidableEq, Repr

namespace Use

/-- The options of a cluster, of which the last one has the value. -/
def ofCluster (cluster : Cluster) (value : OptionValue) : List Use :=
  cluster.flags.map (fun o => ⟨o, .nothing⟩) ++ [⟨cluster.last, value⟩]

/-- The options that words use, in order, up to the first one that misses its value or has one that
it must not have. -/
def ofWords : List Word → List Use
  | [] => []
  | .option o name attached :: rest =>
    match Cluster.ofWord o name attached with
    | .error _ => []
    | .ok cluster =>
      match cluster.attached, cluster.last.takesValue with
      | some text, _ => ofCluster cluster (.ofText text) ++ ofWords rest
      | none, false => ofCluster cluster .nothing ++ ofWords rest
      | none, true =>
        match rest with
        | .plain text :: rest => ofCluster cluster (.word text) ++ ofWords rest
        | _ => []
  | .plain _ :: rest | .separator :: rest | .unknown _ :: rest => ofWords rest

/-- The options that a command line uses. There are none if one of its words may mean several. -/
def ofLine (words : List String) : List Use :=
  match Word.classifyAll words with
  | .ok classified => ofWords classified
  | .error _ => []

end Use

/-- The option is one of those that are used. -/
def Opt.Among (o : Opt) (uses : List Use) : Prop := ∃ use ∈ uses, use.option = o

/-- The help and the version are shown because they are asked for. -/
def Exit.Due (uses : List Use) : Exit → Prop
  | .help => Opt.help.Among uses
  | .version => Opt.version.Among uses
  | .usage _ => True

theorem Exit.Due.mono {uses uses' : List Use} (hsub : uses ⊆ uses') {e : Exit} (h : e.Due uses) :
    e.Due uses' := by
  cases e with
  | help | version =>
    obtain ⟨use, hmem, huse⟩ := h
    exact ⟨use, hsub hmem, huse⟩
  | usage _ => trivial

/-- A value of one character, or one that was taken away. -/
def OptionValue.Single (value : OptionValue) : Prop :=
  value = .nothing ∨ ∃ c, value = .word (String.singleton c)

namespace Given

section

variable {uses : List Use} {g g' : Given}

/-- Gives the options that are used, in order. -/
def take (g : Given) (uses : List Use) : Except Exit Given :=
  uses.foldlM (fun g use => g.apply use.option use.value) g

/-- One word gives the options that it stands for, in order. -/
theorem applyCluster_eq (g : Given) (cluster : Cluster) (value : OptionValue) :
    g.applyCluster cluster.flags cluster.last value = g.take (Use.ofCluster cluster value) := by
  rw [take, Use.ofCluster, List.foldlM_append, List.foldlM_map, applyCluster]
  simp only [List.foldlM_cons, List.foldlM_nil, bind_pure]

theorem take_cons (g : Given) (use : Use) (uses : List Use) :
    g.take (use :: uses) = g.apply use.option use.value >>= fun g₁ => g₁.take uses := by
  rw [take, List.foldlM_cons]
  rfl

/-- What the next words of a command line do with what is given: they use options, and give what
these give unless they are refused. -/
inductive Takes (g : Given) : List Use → Except Exit Given → Prop where
  | skipped : Takes g [] (.ok g)
  | input (text : String) : Takes g [] (.ok { g with input := some text })
  | options (uses : List Use) : Takes g uses (g.take uses)
  | unclear (e : UsageError) : Takes g [] (.error (.usage e))

/-- A word is taken up in one step, with the next one where they belong together. -/
theorem applyWords_cons (g : Given) (vacant : Bool) (extras : List String) (word : Word)
    (rest : List Word) :
    ∃ uses result vacant₁ extras₁ rest₁, g.Takes uses result ∧ rest₁.length ≤ rest.length ∧
      Use.ofWords (word :: rest) = uses ++ Use.ofWords rest₁ ∧
      g.applyWords vacant extras (word :: rest) =
        result >>= fun g₁ => g₁.applyWords vacant₁ extras₁ rest₁ := by
  have hshorter : ∀ {next : Word} {rest : List Word}, rest.length ≤ (next :: rest).length :=
    Nat.le_succ _
  cases word with
  | unknown text => exact ⟨_, _, _, _, _, .skipped, Nat.le_refl _, rfl, rfl⟩
  | option o name attached =>
    rw [applyWords, Use.ofWords]
    rcases hcluster : Cluster.ofWord o name attached with e | ⟨flags, last, attached⟩
    · exact ⟨[], _, true, [], [], .unclear e, Nat.zero_le _, rfl, rfl⟩
    have hwords : ∀ {f : Cluster → Except Exit (Given × List String)},
        (Except.mapError Exit.usage (.ok ⟨flags, last, attached⟩) >>= f) =
          f ⟨flags, last, attached⟩ := rfl
    simp only [hwords, applyCluster_eq g ⟨flags, last, attached⟩]
    cases attached with
    | some text => exact ⟨_, _, _, _, _, .options _, Nat.le_refl _, rfl, rfl⟩
    | none =>
      cases last.takesValue with
      | false => exact ⟨_, _, _, _, _, .options _, Nat.le_refl _, rfl, rfl⟩
      | true =>
        have hmissing : g.Takes [] (.error (.usage (.valueMissing last))) := .unclear _
        cases rest with
        | nil => exact ⟨_, _, true, [], [], hmissing, Nat.le_refl _, rfl, rfl⟩
        | cons next after =>
          cases next with
          | plain text => exact ⟨_, _, _, _, _, .options _, hshorter, rfl, rfl⟩
          | separator | option | unknown =>
            exact ⟨_, _, true, [], [], hmissing, Nat.zero_le _, rfl, rfl⟩
  | plain text =>
    by_cases hseparator : ∃ after, rest = .separator :: after
    · obtain ⟨after, rfl⟩ := hseparator
      rw [applyWords]
      cases vacant with
      | true => exact ⟨_, _, _, _, after, .input text, hshorter, rfl, rfl⟩
      | false => exact ⟨_, _, _, _, after, .skipped, hshorter, rfl, rfl⟩
    · rw [applyWords]
      · cases vacant with
        | true => exact ⟨_, _, _, _, _, .input text, Nat.le_refl _, rfl, rfl⟩
        | false => exact ⟨_, _, _, _, _, .skipped, Nat.le_refl _, rfl, rfl⟩
      · exact fun after heq => hseparator ⟨after, heq⟩
  | separator =>
    by_cases hplain : ∃ text after, rest = .plain text :: after
    · obtain ⟨text, after, rfl⟩ := hplain
      rw [applyWords]
      cases vacant with
      | true => exact ⟨_, _, _, _, after, .input text, hshorter, rfl, rfl⟩
      | false => exact ⟨_, _, _, _, after, .skipped, hshorter, rfl, rfl⟩
    · rw [applyWords]
      · exact ⟨_, _, _, _, _, .skipped, Nat.le_refl _, rfl, rfl⟩
      · exact fun text after heq => hplain ⟨text, after, heq⟩

/-- All options keep what every option keeps. -/
theorem take_keeps {P : List Use → Given → Prop}
    (happly : ∀ {uses g g'} use, P uses g → g.apply use.option use.value = .ok g' →
      P (uses ++ [use]) g')
    {more : List Use} (h : P uses g) (htake : g.take more = .ok g') : P (uses ++ more) g' := by
  induction more generalizing uses g with
  | nil =>
    obtain rfl := Except.ok.inj htake
    rwa [List.append_nil]
  | cons use more ih =>
    rw [take_cons] at htake
    obtain ⟨g₁, hg, hrest⟩ := exists_of_bind_ok htake
    rw [List.append_cons]
    exact ih (happly use h hg) hrest

/-- All words keep what every option and the name of the input file keep. -/
theorem applyWords_keeps (P : List Use → Given → Prop)
    (happly : ∀ {uses g g'} use, P uses g → g.apply use.option use.value = .ok g' →
      P (uses ++ [use]) g')
    (hinput : ∀ {uses g} text, P uses g → P uses { g with input := some text })
    {vacant : Bool} {extras extras' : List String} {words : List Word} (h : P uses g)
    (hwords : g.applyWords vacant extras words = .ok (g', extras')) :
    P (uses ++ Use.ofWords words) g' := by
  -- a step may take two words, so that the induction is on their number
  induction hlength : words.length using Nat.strongRecOn
    generalizing uses g vacant extras words with
  | ind n ih =>
    subst hlength
    cases words with
    | nil =>
      rw [applyWords] at hwords
      obtain ⟨rfl, -⟩ := Prod.mk.inj (Except.ok.inj hwords)
      rwa [Use.ofWords, List.append_nil]
    | cons word rest =>
      obtain ⟨more, result, vacant₁, extras₁, rest₁, htakes, hle, huses, hstep⟩ :=
        g.applyWords_cons vacant extras word rest
      rw [hstep] at hwords
      obtain ⟨g₁, hresult, hrest⟩ := exists_of_bind_ok hwords
      have hg₁ : P (uses ++ more) g₁ := by
        cases htakes with
        | skipped =>
          obtain rfl := Except.ok.inj hresult
          rwa [List.append_nil]
        | input text =>
          obtain rfl := Except.ok.inj hresult
          rw [List.append_nil]
          exact hinput text h
        | options => exact take_keeps happly h hresult
        | unclear => cases hresult
      rw [huses, ← List.append_assoc]
      exact ih rest₁.length (Nat.lt_succ_of_le hle) hg₁ hrest rfl

/-- What an option does: with what is given it gives more, or it ends the program early. -/
inductive Applied (g : Given) : Use → Except Exit Given → Prop where
  | help (value : OptionValue) : Applied g ⟨.help, value⟩ (.error .help)
  | version (value : OptionValue) : Applied g ⟨.version, value⟩ (.error .version)
  | output (value : OptionValue) :
      Applied g ⟨.output, value⟩ (.ok { g with output := some value })
  | configFile (value : OptionValue) :
      Applied g ⟨.configFile, value⟩ (.ok { g with configFile := some value })
  | symbol {role : Role} {value : OptionValue} (h : role ≠ .operator → value.Single) :
      Applied g ⟨.symbol role, value⟩ (.ok (g.setSymbol role value))
  | noAlign (value : OptionValue) (h : g.lineWidth = none) :
      Applied g ⟨.noAlign, value⟩ (.ok { g with noAlign := true })
  | lineWidth {value : OptionValue} {w : LineWidth} (hw : width value = .ok w)
      (h : g.noAlign = false) :
      Applied g ⟨.lineWidth, value⟩ (.ok { g with lineWidth := some w })
  | noNewline (value : OptionValue) :
      Applied g ⟨.noNewline, value⟩ (.ok { g with noNewline := true })
  | license (value : OptionValue) :
      Applied g ⟨.license, value⟩ (.ok { g with license := true })
  | verbose (value : OptionValue) :
      Applied g ⟨.verbose, value⟩ (.ok { g with verbose := true })
  | refused (use : Use) (e : UsageError) : Applied g use (.error (.usage e))

/-- A value that passes for a character is one. -/
theorem character_ok {o : Opt} {value v : OptionValue} (h : character o value = .ok v) :
    v = value ∧ value.Single := by
  cases value with
  | nothing => exact ⟨(Except.ok.inj h).symm, .inl rfl⟩
  | word text =>
    rw [character] at h
    split at h
    · rename_i hlength
      obtain ⟨c, hc⟩ := List.length_eq_one_iff.1 (String.length_toList.trans hlength)
      refine ⟨(Except.ok.inj h).symm, .inr ⟨c, congrArg OptionValue.word ?_⟩⟩
      exact String.toList_inj.1 (hc.trans (String.toList_singleton c).symm)
    · cases h

theorem applied (g : Given) (use : Use) : g.Applied use (g.apply use.option use.value) := by
  obtain ⟨o, value⟩ := use
  cases o with
  | help => exact .help value
  | version => exact .version value
  | output => exact .output value
  | configFile => exact .configFile value
  | noNewline => exact .noNewline value
  | license => exact .license value
  | verbose => exact .verbose value
  | symbol role =>
    by_cases hrole : role = .operator
    · subst hrole
      exact .symbol fun hne => absurd rfl hne
    · rw [apply]
      · rcases hvalue : character (.symbol role) value with e | v
        · exact .refused _ e
        · obtain ⟨rfl, hsingle⟩ := character_ok hvalue
          exact .symbol fun _ => hsingle
      · exact hrole
  | noAlign =>
    rw [apply]
    split
    · exact .refused _ _
    · rename_i hfree
      exact .noAlign value (Option.not_isSome_iff_eq_none.1 hfree)
  | lineWidth =>
    rw [apply]
    rcases hw : width value with e | w
    · exact .refused _ e
    · show Applied g _ (if g.noAlign = true then _ else _)
      split
      · exact .refused _ _
      · rename_i hfree
        exact .lineWidth hw (Bool.eq_false_iff.2 hfree)

/-- An option that ends the program early is the reason for that. -/
theorem apply_due {use : Use} {e : Exit} (h : g.apply use.option use.value = .error e) :
    e.Due [use] := by
  have happlied := g.applied use
  rw [h] at happlied
  cases happlied with
  | help value | version value => exact ⟨_, List.mem_singleton_self _, rfl⟩
  | refused => trivial

theorem take_due {more : List Use} {e : Exit} (h : g.take more = .error e) : e.Due more := by
  induction more generalizing g with
  | nil => cases h
  | cons use more ih =>
    rw [take_cons] at h
    rcases of_bind_error h with huse | ⟨g₁, -, hmore⟩
    · exact (apply_due huse).mono (List.cons_subset_cons use (List.nil_subset more))
    · exact (ih hmore).mono (List.subset_cons_self use more)

/-- Words that end the program early use an option that is the reason for that. -/
theorem applyWords_due {vacant : Bool} {extras : List String} {words : List Word} {e : Exit}
    (h : g.applyWords vacant extras words = .error e) : e.Due (Use.ofWords words) := by
  induction hlength : words.length using Nat.strongRecOn generalizing g vacant extras words with
  | ind n ih =>
    subst hlength
    cases words with
    | nil =>
      rw [applyWords] at h
      cases h
    | cons word rest =>
      obtain ⟨more, result, vacant₁, extras₁, rest₁, htakes, hle, huses, hstep⟩ :=
        g.applyWords_cons vacant extras word rest
      rw [hstep] at h
      rw [huses]
      rcases of_bind_error h with hresult | ⟨g₁, -, hrest⟩
      · have hdue : e.Due more := by
          cases htakes with
          | skipped | input => cases hresult
          | options => exact take_due hresult
          | unclear e' =>
            obtain rfl := Except.error.inj hresult
            trivial
        exact hdue.mono (List.subset_append_left _ _)
      · exact (ih rest₁.length (Nat.lt_succ_of_le hle) hrest rfl).mono
          (List.subset_append_right _ _)

/-- A width of lines is positive, or it was taken away. -/
theorem width_ok {value : OptionValue} {w : LineWidth} (h : width value = .ok w) :
    (value = .nothing ∧ w = .nothing) ∨ ∃ n, 1 ≤ n ∧ w = .columns n := by
  cases value with
  | nothing => exact .inl ⟨rfl, (Except.ok.inj h).symm⟩
  | word text =>
    rw [width] at h
    split at h
    · cases h
    split at h
    · cases h
    · rename_i n _ hn
      exact .inr ⟨n, by omega, (Except.ok.inj h).symm⟩

/-- A width that was given is positive, and none was given if lines are not to be broken. -/
structure Measured (g : Given) : Prop where
  pos : ∀ n, g.lineWidth = some (.columns n) → 1 ≤ n
  alone : g.noAlign = true → g.lineWidth = none

theorem measured_empty : empty.Measured where
  pos := by
    intro n hn
    cases hn
  alone _ := rfl

theorem Measured.apply {use : Use} (h : g.Measured)
    (happly : g.apply use.option use.value = .ok g') : g'.Measured := by
  have happlied := g.applied use
  rw [happly] at happlied
  cases happlied with
  | noAlign value hfree => exact ⟨h.pos, fun _ => hfree⟩
  | @lineWidth value w hw hbroken =>
    refine ⟨fun n hn => ?_, fun hnone => ?_⟩
    · obtain rfl : w = .columns n := Option.some.inj hn
      rcases width_ok hw with ⟨-, hnothing⟩ | ⟨m, hm, heq⟩
      · cases hnothing
      · rwa [LineWidth.columns.inj heq]
    · cases hbroken.symm.trans hnone
  | output | configFile | symbol | noNewline | license | verbose => exact ⟨h.pos, h.alone⟩

end

/-- This is what the words of a command line give. They are of known kinds, and none is left
over. -/
def FromWords (g : Given) (words : List String) : Prop :=
  ∃ classified, Word.classifyAll words = .ok classified ∧
    empty.applyWords true [] classified = .ok (g, [])

/-- What a command line gives keeps what every option and the name of the input file keep. -/
theorem FromWords.keeps {g : Given} {words : List String} (P : List Use → Given → Prop)
    (happly : ∀ {uses g g'} use, P uses g → g.apply use.option use.value = .ok g' →
      P (uses ++ [use]) g')
    (hinput : ∀ {uses g} text, P uses g → P uses { g with input := some text })
    (hempty : P [] empty) (h : g.FromWords words) : P (Use.ofLine words) g := by
  obtain ⟨classified, hclassified, hwords⟩ := h
  rw [Use.ofLine, hclassified]
  exact applyWords_keeps P happly hinput hempty hwords

theorem FromWords.measured {g : Given} {words : List String} (h : g.FromWords words) :
    g.Measured :=
  h.keeps (fun _ g => g.Measured) (fun _ h => h.apply) (fun _ h => ⟨h.pos, h.alone⟩)
    measured_empty

end Given

namespace Arguments

variable {words : List String} {arguments : Arguments}

/-- A command line that is not refused gives its arguments. -/
theorem parse_ok (h : parse words = .ok arguments) :
    ∃ g : Given, g.FromWords words ∧ g.toArguments = .ok arguments := by
  obtain ⟨classified, hclassified, h⟩ := exists_of_bind_ok h
  obtain ⟨⟨g, extras⟩, hwords, h⟩ := exists_of_bind_ok h
  simp only at h
  split at h
  · rename_i hempty
    rw [List.isEmpty_iff.1 hempty] at hwords
    exact ⟨g, ⟨classified, ok_of_mapError hclassified, hwords⟩, ok_of_mapError h⟩
  · cases h

/-- What the words of a command line give makes its arguments. -/
theorem parse_of_given {g : Given} (hg : g.FromWords words)
    (h : g.toArguments = .ok arguments) : parse words = .ok arguments := by
  obtain ⟨classified, hclassified, hwords⟩ := hg
  rw [parse, hclassified]
  show (Given.empty.applyWords true [] classified >>= _) = _
  rw [hwords]
  show g.toArguments.mapError Exit.usage = _
  rw [h]
  rfl

/-- The lines have the width that was given, none if they are not to be broken, and the standard
width if nothing was said about it. -/
theorem lineWidth_of_given {g : Given} (hg : g.Measured) (h : g.toArguments = .ok arguments) :
    (g.noAlign = true → arguments.lineWidth = .unbounded) ∧
    (∀ width, g.lineWidth = some width → arguments.lineWidth = width) ∧
    (g.noAlign = false → g.lineWidth = none →
      arguments.lineWidth = .columns standardWidth) := by
  rw [Given.toArguments] at h
  split at h
  · cases h
  obtain rfl := Except.ok.inj h
  refine ⟨fun hnone => if_pos hnone, fun width hwidth => ?_, fun hbroken hwidth => ?_⟩
  · have hbroken : ¬ g.noAlign = true := by
      intro hnone
      rw [hg.alone hnone] at hwidth
      cases hwidth
    exact (if_neg hbroken).trans (by rw [hwidth, Option.getD_some])
  · exact (if_neg (by simp [hbroken])).trans (by rw [hwidth, Option.getD_none])

theorem columns_of_given {g : Given} (hg : g.Measured) (h : g.toArguments = .ok arguments)
    {n : Int} (hn : arguments.lineWidth = .columns n) : 1 ≤ n := by
  obtain ⟨hnone, hgiven, hstandard⟩ := lineWidth_of_given hg h
  rcases hwidth : g.lineWidth with _ | width
  · cases hbroken : g.noAlign with
    | true =>
      rw [hnone hbroken] at hn
      cases hn
    | false =>
      rw [hstandard hbroken hwidth] at hn
      obtain rfl := LineWidth.columns.inj hn
      decide
  · obtain rfl : width = .columns n := (hgiven width hwidth).symm.trans hn
    exact hg.pos n hwidth

/-- The width of the lines of an output is positive. -/
theorem width_pos (h : parse words = .ok arguments) {n : Int}
    (hn : arguments.lineWidth = .columns n) : 1 ≤ n := by
  obtain ⟨g, hg, harguments⟩ := parse_ok h
  exact columns_of_given hg.measured harguments hn

end Arguments

end Unroll.Command
