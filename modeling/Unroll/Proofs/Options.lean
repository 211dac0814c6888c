import Unroll.Proofs.Escapes

/-!
# Options and arguments

The arguments of a command line are what its options say, each as it was used last, and they fit
together. A separator that is attached to an option is taken away before the value is checked, which
is the only way in which a width of lines is no number, or a symbol no character.

* `Command.Use.last` — the value with which an option was used last;
* `Command.Given.Tells` — what is given says what the options say;
* `Command.Use.ofLine_nothing` — where a value was taken away, it was attached to an option;
* `Command.Arguments.Consistent` — what arguments and the options have to do with each other;
* `Command.Arguments.Harmless` — what does not go wrong with arguments;
* `Command.Arguments.parse_consistent` — a command line has such arguments, or ends the program.
-/

namespace Unroll.Command

/-! ### The last value of an option -/

namespace Use

variable {o : Opt} {uses : List Use} {value : OptionValue}

/-- The value of an option where it was used last, if it was used. -/
def last (o : Opt) (uses : List Use) : Option OptionValue :=
  (uses.reverse.find? (·.option = o)).map (·.value)

@[simp] theorem last_snoc (o : Opt) (uses : List Use) (use : Use) :
    last o (uses ++ [use]) = if use.option = o then some use.value else last o uses := by
  rw [last, List.reverse_append, List.reverse_singleton, List.singleton_append, List.find?_cons]
  by_cases h : use.option = o
  · simp [h]
  · simp [h, last]

theorem mem_of_last (h : last o uses = some value) : ⟨o, value⟩ ∈ uses := by
  obtain ⟨use, huse, rfl⟩ := Option.map_eq_some_iff.1 h
  have hoption : use.option = o := by simpa using List.find?_some huse
  rw [← hoption]
  exact List.mem_reverse.1 (List.mem_of_find?_eq_some huse)

theorem isSome_last : (last o uses).isSome = true ↔ o.Among uses := by
  simp [last, Opt.Among]

theorem last_eq_none : last o uses = none ↔ ¬ o.Among uses := by
  rw [← isSome_last, Option.not_isSome_iff_eq_none]

end Use

/-- A symbol is used with one character, unless it is that of the operators. -/
def Use.Single (use : Use) : Prop :=
  ∀ role, use.option = .symbol role → role ≠ .operator → use.value.Single

/-! ### What is given -/

namespace Given

variable {uses : List Use} {g g' : Given}

theorem lookup_setSymbol (g : Given) (role other : Role) (value : OptionValue) :
    (g.setSymbol role value).symbols.lookup other =
      if role = other then some value else g.symbols.lookup other := by
  by_cases h : role = other
  · simp [setSymbol, h]
  · have hother : (other == role) = false := by simp [Ne.symm h]
    simp only [setSymbol, List.lookup_cons, hother, if_neg h]
    exact lookup_filter (fun _ => by simp [Ne.symm h]) g.symbols

/-- What is given says what the options that were used say. -/
structure Tells (uses : List Use) (g : Given) : Prop where
  help : Use.last .help uses = none
  version : Use.last .version uses = none
  output : g.output = Use.last .output uses
  configFile : g.configFile = Use.last .configFile uses
  symbols : ∀ role, g.symbols.lookup role = Use.last (.symbol role) uses
  noAlign : g.noAlign = (Use.last .noAlign uses).isSome
  lineWidth : g.lineWidth.map .ok = (Use.last .lineWidth uses).map width
  noNewline : g.noNewline = (Use.last .noNewline uses).isSome
  license : g.license = (Use.last .license uses).isSome
  verbose : g.verbose = (Use.last .verbose uses).isSome

theorem tells_empty : empty.Tells [] where
  help := rfl
  version := rfl
  output := rfl
  configFile := rfl
  symbols _ := rfl
  noAlign := rfl
  lineWidth := rfl
  noNewline := rfl
  license := rfl
  verbose := rfl

/-- An option says something new of its own field, and leaves the others as they are. -/
theorem Tells.apply {use : Use} (h : g.Tells uses)
    (happly : g.apply use.option use.value = .ok g') : g'.Tells (uses ++ [use]) := by
  have happlied := g.applied use
  rw [happly] at happlied
  cases happlied with
  | symbol =>
    constructor
    case symbols => simp [lookup_setSymbol, h.symbols]
    all_goals simp [setSymbol, h.help, h.version, h.output, h.configFile, h.noAlign, h.lineWidth,
      h.noNewline, h.license, h.verbose]
  | lineWidth hw =>
    constructor
    case lineWidth => simp [hw]
    all_goals simp [h.help, h.version, h.output, h.configFile, h.symbols, h.noAlign, h.noNewline,
      h.license, h.verbose]
  | output | configFile | noAlign | noNewline | license | verbose =>
    constructor <;> simp [h.help, h.version, h.output, h.configFile, h.symbols, h.noAlign,
      h.lineWidth, h.noNewline, h.license, h.verbose]

/-- An option that is not refused has one character for its value where it needs one. -/
theorem single_of_apply {use : Use} (h : g.apply use.option use.value = .ok g') : use.Single := by
  have happlied := g.applied use
  rw [h] at happlied
  cases happlied with
  | symbol hsingle =>
    intro role hrole hother
    obtain rfl := Opt.symbol.inj hrole
    exact hsingle hother
  | output | configFile | noAlign | lineWidth | noNewline | license | verbose =>
    intro role hrole
    cases hrole

theorem FromWords.tells {words : List String} (h : g.FromWords words) :
    g.Tells (Use.ofLine words) :=
  h.keeps (fun uses g => g.Tells uses) (fun _ h => h.apply) (fun _ h => { h with }) tells_empty

theorem FromWords.single {words : List String} (h : g.FromWords words) :
    ∀ use ∈ Use.ofLine words, use.Single :=
  h.keeps (fun uses _ => ∀ use ∈ uses, use.Single)
    (fun _ hall happly => List.forall_mem_append.2
      ⟨hall, List.forall_mem_singleton.2 (single_of_apply happly)⟩)
    (fun _ hall => hall) (List.forall_mem_nil _)

end Given

/-! ### Values that are taken away -/

/-- The text has a separator at its end. -/
def EndsInSeparator (text : String) : Prop := Word.separatorText.toList <:+ text.toList

theorem Word.cutAtEquals_suffix {text name value : List Char}
    (h : cutAtEquals text = some (name, value)) : value <:+ text := by
  rw [cutAtEquals] at h
  split at h
  · obtain ⟨-, rfl⟩ := Prod.mk.inj (Option.some.inj h)
    exact (List.drop_suffix _ _).trans (List.dropWhile_suffix _)
  · cases h

/-- What may be attached to an option stands at the end of its word. -/
theorem Word.candidates_suffix {text : List Char} {o : Opt} {name attached : String}
    (h : (o, name, some attached) ∈ candidates text) : attached.toList <:+ text := by
  simp only [candidates] at h
  split at h
  · split at h
    · rename_i cut value hcut
      obtain ⟨entry, -, hentry⟩ := List.mem_map.1 h
      obtain rfl : String.ofList value = attached := by simpa using congrArg (·.2.2) hentry
      rw [String.toList_ofList]
      exact cutAtEquals_suffix hcut
    · obtain ⟨entry, -, hentry⟩ := List.mem_map.1 h
      simp at hentry
  · rename_i a b rest _
    obtain ⟨entry, -, hentry⟩ := List.mem_filterMap.1 h
    split at hentry
    · obtain rfl : String.ofList rest = attached := by simpa using congrArg (·.map (·.2.2)) hentry
      rw [String.toList_ofList]
      exact (List.suffix_cons b rest).trans (List.suffix_cons a _)
    · split at hentry <;> simp at hentry
  · cases h

theorem Word.classify_suffix {word : String} {o : Opt} {name attached : String}
    (h : classify word = .ok (.option o name (some attached))) :
    attached.toList <:+ word.toList := by
  simp only [classify] at h
  split at h
  · cases h
  split at h
  · cases h
  split at h
  · cases h
  split at h
  · rename_i named hnamed
    obtain ⟨⟨cut, value⟩, hcut, hbind⟩ := Option.bind_eq_some_iff.1 hnamed
    obtain ⟨other, -, hother⟩ := Option.bind_eq_some_iff.1 hbind
    obtain rfl := Except.ok.inj h
    obtain ⟨-, -, hvalue⟩ := Word.option.inj (Option.some.inj hother)
    obtain rfl := Option.some.inj hvalue
    rw [String.toList_ofList]
    exact cutAtEquals_suffix hcut
  · split at h
    · rename_i hcandidates
      obtain ⟨rfl, rfl, rfl⟩ := Word.option.inj (Except.ok.inj h)
      exact candidates_suffix (hcandidates ▸ List.mem_singleton_self _)
    · split at h <;> cases h
    · cases h

theorem Word.mem_classifyAll {words : List String} {classified : List Word} {o : Opt}
    {name : String} {attached : Option String} (h : classifyAll words = .ok classified)
    (hmem : .option o name attached ∈ classified) :
    ∃ word ∈ words, word ≠ separatorText ∧ classify word = .ok (.option o name attached) := by
  induction words generalizing classified with
  | nil =>
    obtain rfl := Except.ok.inj h
    cases hmem
  | cons word rest ih =>
    rw [classifyAll] at h
    split at h
    · obtain rfl := Except.ok.inj h
      simp at hmem
    · rename_i hword
      obtain ⟨first, hfirst, hrest⟩ := exists_of_bind_ok h
      obtain ⟨others, hothers, hall⟩ := exists_of_bind_ok hrest
      obtain rfl := Except.ok.inj hall
      rcases List.mem_cons.1 hmem with rfl | hlater
      · exact ⟨word, List.mem_cons_self, hword, hfirst⟩
      · obtain ⟨other, hother, hfound⟩ := ih hothers hlater
        exact ⟨other, List.mem_cons_of_mem _ hother, hfound⟩

/-- Of the options of one word, only the last can have a value, and if that is attached it stands at
the end of what is attached to the word. -/
theorem Cluster.ofAttached_ok {flags : List Opt} {o : Opt} {name : String} {attached : List Char}
    {cluster : Cluster} (hflags : ∀ flag ∈ flags, flag.takesValue = false)
    (h : ofAttached flags o name attached = .ok cluster) :
    (∀ flag ∈ cluster.flags, flag.takesValue = false) ∧
      ∀ text, cluster.attached = some text → text.toList <:+ attached := by
  induction attached generalizing flags o name with
  | nil =>
    obtain rfl := Except.ok.inj h
    refine ⟨fun flag hflag => hflags flag (List.mem_reverse.1 hflag), fun text htext => ?_⟩
    cases htext
  | cons c rest ih =>
    rw [ofAttached] at h
    split at h
    · obtain rfl := Except.ok.inj h
      refine ⟨fun flag hflag => hflags flag (List.mem_reverse.1 hflag), fun text htext => ?_⟩
      obtain rfl := Option.some.inj htext
      simp only [String.toList_ofList]
      exact List.suffix_rfl
    · rename_i hvalue
      have hmore : ∀ flag ∈ o :: flags, flag.takesValue = false :=
        List.forall_mem_cons.2 ⟨by simpa using hvalue, hflags⟩
      dsimp only at h
      split at h
      · cases h
      · obtain ⟨hall, htext⟩ := ih hmore h
        exact ⟨hall, fun text heq => (htext text heq).trans (List.suffix_cons c rest)⟩
      · cases h

theorem Cluster.ofWord_ok {o : Opt} {name : String} {attached : Option String} {cluster : Cluster}
    (h : ofWord o name attached = .ok cluster) :
    (∀ flag ∈ cluster.flags, flag.takesValue = false) ∧
      ∀ text, cluster.attached = some text →
        ∃ whole, attached = some whole ∧ text.toList <:+ whole.toList := by
  rw [ofWord.eq_def] at h
  split at h
  · obtain rfl := Except.ok.inj h
    exact ⟨List.forall_mem_nil _, fun text htext => by cases htext⟩
  · split at h
    · obtain rfl := Except.ok.inj h
      refine ⟨List.forall_mem_nil _, fun text htext => ?_⟩
      obtain rfl := Option.some.inj htext
      exact ⟨_, rfl, List.suffix_rfl⟩
    · cases h
  · rename_i whole _
    obtain ⟨hflags, htext⟩ := ofAttached_ok (List.forall_mem_nil _) h
    exact ⟨hflags, fun text heq => ⟨whole, rfl, htext text heq⟩⟩

namespace Use

variable {o : Opt}

/-- An option of a cluster that has a value is the last one. -/
theorem mem_ofCluster {cluster : Cluster} {value : OptionValue} {use : Use}
    (hflags : ∀ flag ∈ cluster.flags, flag.takesValue = false)
    (huse : use.option.takesValue = true) (h : use ∈ ofCluster cluster value) :
    use = ⟨cluster.last, value⟩ := by
  rcases List.mem_append.1 h with hflag | hlast
  · obtain ⟨flag, hmem, rfl⟩ := List.mem_map.1 hflag
    rw [hflags flag hmem] at huse
    cases huse
  · exact List.mem_singleton.1 hlast

/-- The value of an option is taken away only where it was attached, and was a separator. -/
theorem ofWords_nothing {words : List Word} {o : Opt} (ho : o.takesValue = true)
    (h : ⟨o, .nothing⟩ ∈ ofWords words) :
    ∃ first name attached, .option first name (some attached) ∈ words ∧
      EndsInSeparator attached := by
  have hlater : ∀ {word : Word} {rest : List Word},
      (∃ first name attached, .option first name (some attached) ∈ rest ∧
        EndsInSeparator attached) →
      ∃ first name attached, .option first name (some attached) ∈ word :: rest ∧
        EndsInSeparator attached := by
    rintro word rest ⟨first, name, attached, hmem, hends⟩
    exact ⟨first, name, attached, List.mem_cons_of_mem _ hmem, hends⟩
  fun_induction ofWords words with
  -- no words are left, or an option is refused
  | case1 | case2 => cases h
  -- a value is attached
  | case3 first name attached rest cluster hcluster text hattached ih =>
    obtain ⟨hflags, htext⟩ := Cluster.ofWord_ok hcluster
    rcases List.mem_append.1 h with hmem | hmem
    · obtain ⟨whole, rfl, hsuffix⟩ := htext text hattached
      have hvalue : OptionValue.nothing = .ofText text :=
        congrArg Use.value (mem_ofCluster hflags ho hmem)
      have hseparator : text = Word.separatorText := by
        rw [OptionValue.ofText] at hvalue
        split at hvalue
        · assumption
        · cases hvalue
      subst hseparator
      exact ⟨first, name, whole, List.mem_cons_self, hsuffix⟩
    · exact hlater (ih hmem)
  -- no value is wanted
  | case4 first name attached rest cluster hcluster hvalue hattached ih =>
    rcases List.mem_append.1 h with hmem | hmem
    · have hlast : o = cluster.last :=
        congrArg Use.option (mem_ofCluster (Cluster.ofWord_ok hcluster).1 ho hmem)
      rw [← hlast, ho] at hvalue
      cases hvalue
    · exact hlater (ih hmem)
  -- the value is the next word
  | case5 first name attached cluster hcluster hvalue hattached text rest ih =>
    rcases List.mem_append.1 h with hmem | hmem
    · cases congrArg Use.value (mem_ofCluster (Cluster.ofWord_ok hcluster).1 ho hmem)
    · exact hlater (hlater (ih hmem))
  -- the value is missing
  | case6 => cases h
  -- a word that is no option: unknown, a separator, or plain
  | case7 _ _ ih | case8 _ ih | case9 _ _ ih => exact hlater (ih h)

theorem ofLine_nothing {words : List String} {o : Opt} (ho : o.takesValue = true)
    (h : ⟨o, .nothing⟩ ∈ ofLine words) :
    ∃ word ∈ words, word ≠ Word.separatorText ∧ EndsInSeparator word := by
  rw [ofLine] at h
  split at h
  · rename_i classified hclassified
    obtain ⟨first, name, attached, hmem, hends⟩ := ofWords_nothing ho h
    obtain ⟨word, hword, hne, hclassify⟩ := Word.mem_classifyAll hclassified hmem
    exact ⟨word, hword, hne, hends.trans (Word.classify_suffix hclassify)⟩
  · cases h

end Use

/-! ### Arguments that fit together -/

namespace Arguments

variable {words : List String} {uses : List Use} {arguments : Arguments} {g : Given}

/-- The arguments say what the options that were used say, and these fit together. -/
structure Consistent (uses : List Use) (arguments : Arguments) : Prop where
  /-- nothing was asked for that ends the program early -/
  goesOn : ¬ Opt.help.Among uses ∧ ¬ Opt.version.Among uses
  /-- lines are left unbroken exactly if that was asked for -/
  unbounded : arguments.lineWidth = .unbounded ↔ Opt.noAlign.Among uses
  /-- a width is positive -/
  positive (n : Int) (h : arguments.lineWidth = .columns n) : 1 ≤ n
  /-- the width is that of the last option about it -/
  width (value : OptionValue) (h : Use.last .lineWidth uses = some value) :
    Given.width value = .ok arguments.lineWidth
  /-- the width is the standard one if there is no option about it -/
  standard (hbroken : ¬ Opt.noAlign.Among uses) (hfree : ¬ Opt.lineWidth.Among uses) :
    arguments.lineWidth = .columns standardWidth
  /-- a width was not given beside the wish for unbroken lines, in neither order -/
  excluded : ¬ (Opt.noAlign.Among uses ∧ Opt.lineWidth.Among uses)
  /-- the symbols are those that were given, each with its last value -/
  symbols : arguments.symbols = Role.all.filterMap fun role =>
    (Use.last (.symbol role) uses).map fun value => (role, value)
  /-- a symbol is one character, unless it is that of the operators or was taken away -/
  single (symbol : Role × OptionValue) (hmem : symbol ∈ arguments.symbols)
    (hrole : symbol.1 ≠ .operator) : symbol.2.Single
  /-- there are no symbols beside a configuration file, also if that has no name -/
  apart : arguments.symbols = [] ∨
    ¬ Opt.configFile.Among uses ∧ arguments.configFile = none
  configFile : arguments.configFile = (Use.last .configFile uses).bind OptionValue.path?
  output : arguments.output = (Use.last .output uses).bind OptionValue.path?
  noNewline : arguments.noNewline = true ↔ Opt.noNewline.Among uses
  license : arguments.license = true ↔ Opt.license.Among uses
  verbose : arguments.verbose = true ↔ Opt.verbose.Among uses

/-- No value was taken away from an option that the arguments depend on in their width of lines or
in their symbols. -/
def Whole (arguments : Arguments) : Prop :=
  arguments.lineWidth ≠ .nothing ∧ ∀ symbol ∈ arguments.symbols, symbol.2 ≠ .nothing

/-- Two things cannot go wrong with arguments, whatever the program finds around it: the width of
lines is not refused when something is written, and a configuration is refused for its characters
only. -/
structure Harmless (arguments : Arguments) : Prop where
  width (depth : Nat) (ts : List Token) (sink : Sink) (w : Int) :
    (writeAll depth ts arguments.lineWidth.columns? sink).1 ≠ .error (.width w)
  config (around : Surroundings) (f : Settings.Fault)
    (h : (arguments.configFrom around).2 = .error (.document (.invalid f))) : f.Invalid

/-- What was given becomes the arguments, unless symbols were given beside a configuration file. -/
theorem toArguments_ok (h : g.toArguments = .ok arguments) :
    (g.configFile = none ∨ arguments.symbols = []) ∧
    arguments.symbols = Role.all.filterMap (fun role =>
      (g.symbols.lookup role).map fun value => (role, value)) ∧
    arguments.output = g.output.bind OptionValue.path? ∧
    arguments.configFile = g.configFile.bind OptionValue.path? ∧
    arguments.noNewline = g.noNewline ∧ arguments.license = g.license ∧
    arguments.verbose = g.verbose := by
  rw [Given.toArguments] at h
  split at h
  · cases h
  · rename_i hapart
    obtain rfl := Except.ok.inj h
    refine ⟨?_, rfl, rfl, rfl, rfl, rfl, rfl⟩
    rcases hfile : g.configFile with _ | file
    · exact .inl rfl
    · rw [hfile, Option.isSome_some, Bool.true_and, Bool.not_eq_true', Bool.not_eq_false] at hapart
      exact .inr (List.isEmpty_iff.1 hapart)

/-- Arguments are consistent with the options that what was given tells of. -/
theorem consistent_of_tells (htells : g.Tells uses) (hmeasured : g.Measured)
    (hsingle : ∀ use ∈ uses, use.Single)
    (h : g.toArguments = .ok arguments) : arguments.Consistent uses := by
  obtain ⟨hnone, hgiven, hstandard⟩ := lineWidth_of_given hmeasured h
  obtain ⟨hapart, hsymbols, houtput, hconfigFile, hnoNewline, hlicense, hverbose⟩ :=
    toArguments_ok h
  have halign : g.noAlign = true ↔ Opt.noAlign.Among uses := by
    rw [htells.noAlign, Use.isSome_last]
  have hwidth : ∀ value, Use.last .lineWidth uses = some value →
      ∃ w, g.lineWidth = some w ∧ Given.width value = .ok w := by
    intro value hvalue
    have hmap := htells.lineWidth
    rw [hvalue] at hmap
    obtain ⟨w, hw, heq⟩ := Option.map_eq_some_iff.1 hmap
    exact ⟨w, hw, heq.symm⟩
  simp only [htells.symbols] at hsymbols
  constructor
  case goesOn => exact ⟨Use.last_eq_none.1 htells.help, Use.last_eq_none.1 htells.version⟩
  case unbounded =>
    refine ⟨fun hunbounded => halign.1 ?_, fun hn => hnone (halign.2 hn)⟩
    by_contra hbroken
    rcases hw : g.lineWidth with _ | w
    · rw [hstandard (Bool.eq_false_iff.2 hbroken) hw] at hunbounded
      cases hunbounded
    · obtain rfl := (hgiven w hw).symm.trans hunbounded
      have hmap := htells.lineWidth
      rw [hw] at hmap
      obtain ⟨value, -, hvalue⟩ := Option.map_eq_some_iff.1 hmap.symm
      rcases Given.width_ok hvalue with ⟨-, hnothing⟩ | ⟨n, -, hcolumns⟩
      · cases hnothing
      · cases hcolumns
  case positive => exact fun n hn => columns_of_given hmeasured h hn
  case width =>
    intro value hvalue
    obtain ⟨w, hw, heq⟩ := hwidth value hvalue
    rw [heq, hgiven w hw]
  case standard =>
    intro hbroken hfree
    refine hstandard (Bool.eq_false_iff.2 fun hn => hbroken (halign.1 hn)) ?_
    have hmap := htells.lineWidth
    rw [Use.last_eq_none.2 hfree] at hmap
    exact Option.map_eq_none_iff.1 hmap
  case excluded =>
    rintro ⟨hn, hl⟩
    obtain ⟨value, hvalue⟩ := Option.isSome_iff_exists.1 (Use.isSome_last.2 hl)
    obtain ⟨w, hw, -⟩ := hwidth value hvalue
    rw [hmeasured.alone (halign.2 hn)] at hw
    cases hw
  case symbols => exact hsymbols
  case single =>
    intro symbol hmem hother
    rw [hsymbols] at hmem
    obtain ⟨role, -, hrole⟩ := List.mem_filterMap.1 hmem
    obtain ⟨value, hvalue, rfl⟩ := Option.map_eq_some_iff.1 hrole
    exact hsingle _ (Use.mem_of_last hvalue) role rfl hother
  case apart =>
    rcases hapart with hfile | hempty
    · refine .inr ⟨Use.last_eq_none.1 (htells.configFile.symm.trans hfile), ?_⟩
      rw [hconfigFile, hfile, Option.bind_none]
    · exact .inl hempty
  case configFile => rw [hconfigFile, htells.configFile]
  case output => rw [houtput, htells.output]
  case noNewline => rw [hnoNewline, htells.noNewline, Use.isSome_last]
  case license => rw [hlicense, htells.license, Use.isSome_last]
  case verbose => rw [hverbose, htells.verbose, Use.isSome_last]

/-- A command line that ends the program uses an option that is the reason for that. -/
theorem parse_due {e : Exit} (h : parse words = .error e) : e.Due (Use.ofLine words) := by
  have husage : ∀ {α : Type} {x : Except UsageError α}, x.mapError .usage = .error e →
      e.Due (Use.ofLine words) := by
    intro α x hx
    obtain ⟨problem, -, rfl⟩ := error_of_mapError hx
    trivial
  rcases of_bind_error h with hclassify | ⟨classified, hclassified, hrest⟩
  · exact husage hclassify
  rcases of_bind_error hrest with hwords | ⟨⟨g, extras⟩, -, hgiven⟩
  · rw [Use.ofLine, ok_of_mapError hclassified]
    exact Given.applyWords_due hwords
  · dsimp only at hgiven
    split at hgiven
    · exact husage hgiven
    · obtain rfl := Except.error.inj hgiven
      trivial

/-- The arguments of a command line are consistent with the options that it uses. -/
theorem consistent_of_parse (h : parse words = .ok arguments) :
    arguments.Consistent (Use.ofLine words) := by
  obtain ⟨g, hg, harguments⟩ := parse_ok h
  exact consistent_of_tells hg.tells hg.measured hg.single harguments

/-- With the arguments of a command line, some things do not go wrong. -/
theorem harmless_of_parse (h : parse words = .ok arguments) : arguments.Harmless where
  width depth ts sink w hfails := by
    obtain ⟨failure, hfailure⟩ := writeAll_error (widthOk h) hfails
    cases hfailure
  config around f hwrong := by
    rw [configFrom] at hwrong
    split at hwrong
    · rcases Config.ofFile_error hwrong with hexpected | ⟨hdeep, -⟩
      · cases hexpected
        assumption
      · cases hdeep
    · obtain ⟨e, he, hf⟩ := error_of_mapError hwrong
      obtain rfl := Config.DocumentFault.invalid.inj (Config.FileFault.document.inj hf)
      rw [ofFields_fields] at he
      obtain ⟨vs, hvs⟩ := arguments.elements_settings
      exact Config.ofSettings_error hvs he

/-- A command line that gives arguments from which a value was taken away has a word with a
separator at its end. -/
theorem exists_of_not_whole (h : arguments.Consistent (Use.ofLine words))
    (hmissing : ¬ arguments.Whole) :
    ∃ word ∈ words, word ≠ Word.separatorText ∧ EndsInSeparator word := by
  rcases not_and_or.1 hmissing with hwidth | hsymbols
  · rw [ne_eq, not_not] at hwidth
    have hbroken : ¬ Opt.noAlign.Among (Use.ofLine words) := by
      rw [← h.unbounded, hwidth]
      simp
    rcases hlast : Use.last .lineWidth (Use.ofLine words) with _ | value
    · have hstandard := h.standard hbroken (Use.last_eq_none.1 hlast)
      rw [hwidth] at hstandard
      cases hstandard
    · have hvalue := h.width value hlast
      rw [hwidth] at hvalue
      rcases Given.width_ok hvalue with ⟨rfl, -⟩ | ⟨n, -, hcolumns⟩
      · exact Use.ofLine_nothing rfl (Use.mem_of_last hlast)
      · cases hcolumns
  · push Not at hsymbols
    obtain ⟨symbol, hmem, hnothing⟩ := hsymbols
    rw [h.symbols] at hmem
    obtain ⟨role, -, hrole⟩ := List.mem_filterMap.1 hmem
    obtain ⟨value, hvalue, rfl⟩ := Option.map_eq_some_iff.1 hrole
    obtain rfl : value = .nothing := hnothing
    exact Use.ofLine_nothing rfl (Use.mem_of_last hvalue)

/-- A command line ends the program, with the code zero after the help or the version and else with
two, or it gives arguments that fit together and do no harm. A value is missing in these only where
it was a separator, which is taken away if it is attached to an option. -/
theorem parse_consistent (words : List String) :
    (∀ e version, parse words = .error e →
      (e = .help ∧ (e.report version).1 = 0 ∧ Opt.help.Among (Use.ofLine words)) ∨
      (e = .version ∧ (e.report version).1 = 0 ∧ Opt.version.Among (Use.ofLine words)) ∨
      ((∃ problem, e = .usage problem) ∧ (e.report version).1 = 2)) ∧
    (∀ arguments, parse words = .ok arguments →
      arguments.Consistent (Use.ofLine words) ∧ arguments.Harmless ∧
      (¬ arguments.Whole →
        ∃ word ∈ words, word ≠ Word.separatorText ∧ EndsInSeparator word)) := by
  refine ⟨fun e version he => ?_, fun arguments h => ?_⟩
  · have hdue := parse_due he
    cases e with
    | help => exact .inl ⟨rfl, rfl, hdue⟩
    | version => exact .inr (.inl ⟨rfl, rfl, hdue⟩)
    | usage problem => exact .inr (.inr ⟨⟨problem, rfl⟩, rfl⟩)
  · have hconsistent := consistent_of_parse h
    exact ⟨hconsistent, harmless_of_parse h, exists_of_not_whole hconsistent⟩

/-- A prefix of macros is given, and a width of lines. -/
def short : Arguments where
  input := none
  output := none
  configFile := none
  symbols := [(.macroPrefix, .word "?")]
  lineWidth := .columns 5
  noNewline := false
  license := false
  verbose := false

theorem parse_short : parse ["-m=?", "-l=5"] = .ok short := by
  have hclassified : Word.classifyAll ["-m=?", "-l=5"] =
      .ok [.option (.symbol .macroPrefix) "-m" (some "?"),
        .option .lineWidth "-l" (some "5")] := by decide
  have hwords : Given.empty.applyWords true []
      [.option (.symbol .macroPrefix) "-m" (some "?"), .option .lineWidth "-l" (some "5")] =
      .ok ({ Given.empty with
        symbols := short.symbols, lineWidth := some short.lineWidth }, []) := by
    simp only [Given.applyWords]
    rfl
  exact parse_of_given ⟨_, hclassified, hwords⟩ rfl

theorem parse_excluded :
    parse ["-n", "-l=5"] = .error (.usage (.excluded .lineWidth .noAlign)) := by
  have hclassified : Word.classifyAll ["-n", "-l=5"] =
      .ok [.option .noAlign "-n" none, .option .lineWidth "-l" (some "5")] := by decide
  have hwords : Given.empty.applyWords true []
      [.option .noAlign "-n" none, .option .lineWidth "-l" (some "5")] =
      .error (.usage (.excluded .lineWidth .noAlign)) := by
    simp only [Given.applyWords]
    rfl
  rw [parse, hclassified]
  show (Given.empty.applyWords true [] _ >>= _) = _
  rw [hwords]
  rfl

/-- A command line that gives arguments, and one with a width beside the wish for unbroken lines. -/
theorem parse_consistent_short :
    (parse ["-m=?", "-l=5"] = .ok short ∧ short.Whole ∧
      ¬ Opt.noAlign.Among (Use.ofLine ["-m=?", "-l=5"])) ∧
    (parse ["-n", "-l=5"] = .error (.usage (.excluded .lineWidth .noAlign)) ∧
      ((Exit.usage (.excluded .lineWidth .noAlign)).report usualVersion).1 = 2) := by
  obtain ⟨hconsistent, -⟩ := (parse_consistent ["-m=?", "-l=5"]).2 short parse_short
  refine ⟨⟨parse_short, ⟨by simp [short], by simp [short]⟩, ?_⟩, parse_excluded, ?_⟩
  · rw [← hconsistent.unbounded]
    simp [short]
  · obtain ⟨hhelp, -⟩ | ⟨hversion, -⟩ | ⟨-, hcode⟩ :=
      (parse_consistent ["-n", "-l=5"]).1 _ _ parse_excluded
    · cases hhelp
    · cases hversion
    · exact hcode

/-- The prefix of macros is taken away. -/
def unmarked : Arguments := { short with
  symbols := [(.macroPrefix, .nothing)]
  lineWidth := .columns standardWidth }

/-- A separator that is attached leaves a width of lines that is no number, and a prefix that is no
character, although both options were given a value. -/
theorem parse_not_consistent :
    (parse ["-l=--"] = .ok unmeasured ∧ unmeasured.lineWidth ≠ .unbounded ∧
      ∀ n, unmeasured.lineWidth ≠ .columns n) ∧
    (parse ["-m=--"] = .ok unmarked ∧ ∃ value, (.macroPrefix, value) ∈ unmarked.symbols ∧
      ∀ c, value ≠ .word (String.singleton c)) := by
  refine ⟨⟨parse_unmeasured, by simp [unmeasured], by simp [unmeasured]⟩, ?_, .nothing, ?_, ?_⟩
  · have hclassified : Word.classifyAll ["-m=--"] =
        .ok [.option (.symbol .macroPrefix) "-m" (some "--")] := by decide
    have hwords : Given.empty.applyWords true []
        [.option (.symbol .macroPrefix) "-m" (some "--")] =
        .ok ({ Given.empty with symbols := unmarked.symbols }, []) := by
      simp only [Given.applyWords]
      rfl
    exact parse_of_given ⟨_, hclassified, hwords⟩ rfl
  · exact List.mem_singleton_self _
  · simp

end Arguments

end Unroll.Command
