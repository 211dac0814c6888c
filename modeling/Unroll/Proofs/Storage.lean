import Unroll.Proofs.Documents
import Unroll.Proofs.Spelling

/-!
# Configurations in documents

A configuration is described by its entries, of which those may be left out that the standard
configuration has as well. However they are spelled in a document, and in whatever order, the
document is read as the configuration, from a file too, where the line ends are made one of a kind.

* `Settings.ofFields_given` — fields that determine a configuration are its settings;
* `Config.GivenBy`, `Config.ofFields_setTexts` — the entries that determine a configuration;
* `Json.SpellsObject.unify` — line ends do not matter to what a document spells;
* `Config.read_spelled` — a configuration survives its document in every spelling.
-/

namespace Unroll

open Json (Value names setTexts)

/-! ### Settings by their roles -/

namespace Settings

/-- The value for a role. -/
def get (settings : Settings) : Role → Value
  | .operator => settings.operators
  | .groupStart => settings.groupStart
  | .groupEnd => settings.groupEnd
  | .numberPrefix => settings.numberPrefix
  | .macroPrefix => settings.macroPrefix
  | .escapePrefix => settings.escapePrefix

@[simp]
theorem get_set_self (settings : Settings) (v : Value) (role : Role) :
    (settings.set v role).get role = v := by
  cases role <;> rfl

theorem get_set_of_ne (settings : Settings) (v : Value) {role other : Role} (h : other ≠ role) :
    (settings.set v role).get other = settings.get other := by
  cases role <;> cases other <;> first | rfl | exact absurd rfl h

theorem eq_of_get {settings other : Settings} (h : ∀ role, settings.get role = other.get role) :
    settings = other := by
  obtain ⟨_, _, _, _, _, _⟩ := settings
  obtain ⟨_, _, _, _, _, _⟩ := other
  rw [mk.injEq]
  exact ⟨h .operator, h .groupStart, h .groupEnd, h .numberPrefix, h .macroPrefix, h .escapePrefix⟩

theorem get_ofConfig (config : Config) (role : Role) :
    (ofConfig config).get role = .text (config.symbols role) := by
  cases role <;> rfl

/-- Fields that all give a role what a configuration gives it are settings that describe the
configuration, if the standard ones agree with it on the other roles. -/
theorem ofFields_given {config : Config} {fields : List (CodeText × Value)}
    (hown : ∀ field ∈ fields, ∃ role : Role,
      field = (↑role.key, (ofConfig config).get role))
    (hall : ∀ role : Role, CodeText.ofString role.key ∈ names fields ∨
      standard.get role = (ofConfig config).get role) :
    ofFields fields = .ok (ofConfig config) := by
  rw [ofFields]
  generalize standard = start at hall ⊢
  induction fields generalizing start with
  | nil =>
    have hstart : start = ofConfig config := by
      apply eq_of_get
      intro role
      exact (hall role).resolve_left List.not_mem_nil
    rw [hstart]
    rfl
  | cons field fields ih =>
    obtain ⟨hfield, hfields⟩ := List.forall_mem_cons.1 hown
    obtain ⟨role, rfl⟩ := hfield
    rw [List.foldlM_cons]
    simp only [Role.ofKey?_key]
    apply ih hfields
    intro other
    by_cases hother : other = role
    · subst hother
      exact .inr (get_set_self start _ other)
    · rw [get_set_of_ne start _ hother]
      apply (hall other).imp_left
      intro hmem
      apply (List.mem_cons.1 hmem).resolve_left
      intro hkey
      exact hother (Role.eq_of_key hkey)

end Settings

/-! ### Fields that are texts -/

namespace Json

theorem mem_setField {name : CodeText} {v : Value} {fields : List (CodeText × Value)}
    {field : CodeText × Value} (h : field ∈ setField name v fields) :
    field = (name, v) ∨ field ∈ fields := by
  induction fields with
  | nil => exact .inl (List.mem_singleton.1 h)
  | cons first fields ih =>
    rw [setField] at h
    split at h
    · exact (List.mem_cons.1 h).imp_right (List.mem_cons_of_mem _)
    · rcases List.mem_cons.1 h with rfl | h
      · exact .inr List.mem_cons_self
      · exact (ih h).imp_right (List.mem_cons_of_mem _)

/-- Every field is one of those before, or given by an entry. -/
theorem mem_setTexts {fields : List (CodeText × Value)} {entries : List (String × CodeText)}
    {field : CodeText × Value} (h : field ∈ setTexts fields entries) :
    field ∈ fields ∨ ∃ entry ∈ entries, field = (↑entry.1, .text entry.2) := by
  induction entries generalizing fields with
  | nil => exact .inl h
  | cons entry entries ih =>
    rcases ih h with hfield | ⟨other, hother, rfl⟩
    · apply (mem_setField hfield).symm.imp_right
      intro heq
      exact ⟨entry, List.mem_cons_self, heq⟩
    · exact .inr ⟨other, List.mem_cons_of_mem _ hother, rfl⟩

theorem mem_names_setTexts {name : CodeText} {fields : List (CodeText × Value)}
    {entries : List (String × CodeText)}
    (h : name ∈ names fields ∨ ∃ entry ∈ entries, CodeText.ofString entry.1 = name) :
    name ∈ names (setTexts fields entries) := by
  induction entries generalizing fields with
  | nil => exact h.resolve_right (by simp)
  | cons entry entries ih =>
    refine ih ?_
    rw [names_setField]
    rcases h with hname | ⟨other, hother, rfl⟩
    · split
      · exact .inl hname
      · exact .inl (List.mem_append_left _ hname)
    · rcases List.mem_cons.1 hother with rfl | hother
      · left
        split
        · assumption
        · exact List.mem_append_right _ (List.mem_singleton_self _)
      · exact .inr ⟨other, hother, rfl⟩

end Json

/-! ### Entries -/

namespace Config

theorem mem_entries {config : Config} {entry : String × CodeText} :
    entry ∈ config.entries ↔
      ∃ role : Role, entry = (role.key, config.symbols role) := by
  have hentries : config.entries =
      Role.all.map fun role => (role.key, config.symbols role) := rfl
  have hall : ∀ role, role ∈ Role.all := by
    intro role
    cases role <;> decide
  rw [hentries, List.mem_map]
  constructor
  · rintro ⟨role, -, rfl⟩
    exact ⟨role, rfl⟩
  · rintro ⟨role, rfl⟩
    exact ⟨role, hall role, rfl⟩

/-- Entries of a configuration, among which are all those that the standard configuration does not
have. -/
structure GivenBy (config : Config) (entries : List (String × CodeText)) : Prop where
  own : ∀ entry ∈ entries, entry ∈ config.entries
  rest : ∀ entry ∈ config.entries, entry ∉ entries → entry ∈ Config.standard.entries

variable {config : Config} {entries : List (String × CodeText)} {document : List Char}

theorem GivenBy.field_eq (h : config.GivenBy entries) {field : CodeText × Value}
    (hfield : field ∈ setTexts [] entries) :
    ∃ role : Role, field = (↑role.key, (Settings.ofConfig config).get role) := by
  obtain ⟨entry, hentry, rfl⟩ := (Json.mem_setTexts hfield).resolve_left List.not_mem_nil
  obtain ⟨role, rfl⟩ := mem_entries.1 (h.own entry hentry)
  exact ⟨role, by rw [Settings.get_ofConfig]⟩

/-- The standard configuration agrees with one that is given on the roles that are left out. -/
theorem GivenBy.named_or (h : config.GivenBy entries) (role : Role) :
    CodeText.ofString role.key ∈ names (setTexts [] entries) ∨
      Settings.standard.get role = (Settings.ofConfig config).get role := by
  by_cases hentry : (role.key, config.symbols role) ∈ entries
  · exact .inl (Json.mem_names_setTexts (.inr ⟨_, hentry, rfl⟩))
  · obtain ⟨other, hother⟩ := mem_entries.1 (h.rest _ (mem_entries.2 ⟨role, rfl⟩) hentry)
    obtain ⟨hkey, htext⟩ := Prod.mk.inj hother
    obtain rfl := Role.eq_of_key (congrArg CodeText.ofString hkey)
    refine .inr ?_
    rw [Settings.standard, Settings.get_ofConfig, Settings.get_ofConfig, htext]

theorem checkOperators_setTexts (entries : List (String × CodeText)) :
    checkOperators (setTexts [] entries) = .ok () := by
  rcases hfind : (setTexts [] entries).find? fun field =>
      field.1 = (Role.key .operator : CodeText) with
    _ | field
  · rw [checkOperators, Json.field?, hfind]
    rfl
  · obtain ⟨entry, -, rfl⟩ :=
      (Json.mem_setTexts (List.mem_of_find?_eq_some hfind)).resolve_left List.not_mem_nil
    rw [checkOperators, Json.field?, hfind]
    rfl

/-- The fields of the entries that give a configuration describe it, and none is ignored. -/
theorem GivenBy.ofFields (h : config.GivenBy entries) :
    warnings (setTexts [] entries) = [] ∧ Config.ofFields (setTexts [] entries) = .ok config := by
  have hknown : ∀ field ∈ setTexts [] entries, (Role.ofKey? field.1).isSome = true := by
    intro field hfield
    obtain ⟨role, rfl⟩ := h.field_eq hfield
    rw [Role.ofKey?_key]
    rfl
  have hfields : knownFields (setTexts [] entries) = setTexts [] entries :=
    List.filter_eq_self.2 hknown
  constructor
  · rw [warnings, List.filter_eq_nil_iff.2, List.map_nil]
    intro field hfield
    simp [Option.isSome_iff_ne_none.1 (hknown field hfield)]
  · rw [Config.ofFields, checkOperators_setTexts, hfields,
      Settings.ofFields_given (fun _ => h.field_eq) h.named_or]
    change (ofSettings (Settings.ofConfig config)).mapError _ = _
    rw [ofSettings_ofConfig]
    rfl

/-- A document that spells entries that give a configuration is read as it, without warnings. -/
theorem GivenBy.readDocument (h : config.GivenBy entries)
    (hspells : Json.SpellsObject entries document) (depth : Nat) :
    Config.readDocument (depth + 1) document = ([], .ok config) := by
  obtain ⟨hwarnings, hconfig⟩ := h.ofFields
  simp only [Config.readDocument, hspells.read, hwarnings, hconfig]

end Config

/-! ### Line ends -/

namespace Json

open Text (unifyLineEnds unifyLineEnds_cons unifyLineEnds_return)

variable {s rest : List Char}

/-- A carriage return may stand only where a line feed may stand as well. -/
theorem Blanks.unify (h : Blanks s rest) : Blanks (unifyLineEnds s) (unifyLineEnds rest) := by
  induction h with
  | none => exact .none
  | @more c s rest hc h ih =>
    by_cases hreturn : c = '\r'
    · subst hreturn
      rcases unifyLineEnds_return s with hsame | hfeed
      · rw [hsame]
        exact ih
      · rw [hfeed]
        exact .more (by simp) ih
    · rw [unifyLineEnds_cons hreturn]
      exact .more hc ih

theorem HexDigit.ne_return {c : Char} {n : Nat} (h : HexDigit c n) : c ≠ '\r' := by
  rintro rfl
  cases h.value

theorem SpellsUnit.unify {n : Nat} (h : SpellsUnit n s rest) :
    SpellsUnit n (unifyLineEnds s) (unifyLineEnds rest) := by
  cases h with
  | digits ha hb hc hd =>
    rw [unifyLineEnds_cons (by decide), unifyLineEnds_cons (by decide),
      unifyLineEnds_cons ha.ne_return, unifyLineEnds_cons hb.ne_return,
      unifyLineEnds_cons hc.ne_return, unifyLineEnds_cons hd.ne_return]
    exact .digits ha hb hc hd

theorem SpellsChar.unify {c : Char} (h : SpellsChar c s rest) :
    SpellsChar c (unifyLineEnds s) (unifyLineEnds rest) := by
  cases h with
  | plain hcontrol hquote hbackslash =>
    have hc : c ≠ '\r' := by
      rintro rfl
      exact absurd hcontrol (by decide)
    rw [unifyLineEnds_cons hc]
    exact .plain hcontrol hquote hbackslash
  | @short e _ h =>
    have he : ∀ escape ∈ shortEscapes, escape.2 ≠ '\r' := by simp [shortEscapes]
    rw [unifyLineEnds_cons (by decide), unifyLineEnds_cons (he _ h)]
    exact .short h
  | unit h => exact .unit h.unify
  | pair hc hhigh hlow => exact .pair hc hhigh.unify hlow.unify

theorem SpellsText.unify {cs : CodeText} (h : SpellsText cs s rest) :
    SpellsText cs (unifyLineEnds s) (unifyLineEnds rest) := by
  induction h with
  | close =>
    rw [unifyLineEnds_cons (by decide)]
    exact .close
  | char h _ ih => exact .char h.unify ih
  | half h _ halone ih => exact .half h.unify ih halone

theorem SpellsString.unify {text : CodeText} (h : SpellsString text s rest) :
    SpellsString text (unifyLineEnds s) (unifyLineEnds rest) := by
  cases h with
  | quoted h =>
    rw [unifyLineEnds_cons (by decide)]
    exact .quoted h.unify

/-- Blanks before a character other than a carriage return stay blanks before it. -/
theorem Blanks.unify_cons {c : Char} (h : Blanks s (c :: rest)) (hc : c ≠ '\r') :
    Blanks (unifyLineEnds s) (c :: unifyLineEnds rest) := by
  have hblanks := h.unify
  rwa [unifyLineEnds_cons hc] at hblanks

theorem SpellsField.unify {entry : String × CodeText} (h : SpellsField entry s rest) :
    SpellsField entry (unifyLineEnds s) (unifyLineEnds rest) := by
  cases h with
  | colon hname hbefore hbehind hv hend =>
    exact .colon hname.unify (hbefore.unify_cons (by decide)) hbehind.unify hv.unify hend.unify

theorem SpellsField.unify_cons {entry : String × CodeText} {c : Char}
    (h : SpellsField entry s (c :: rest)) (hc : c ≠ '\r') :
    SpellsField entry (unifyLineEnds s) (c :: unifyLineEnds rest) := by
  have hfield := h.unify
  rwa [unifyLineEnds_cons hc] at hfield

theorem SpellsFields.unify {entries : List (String × CodeText)} (h : SpellsFields entries s rest) :
    SpellsFields entries (unifyLineEnds s) (unifyLineEnds rest) := by
  induction h with
  | last h => exact .last (h.unify_cons (by decide))
  | more h hblanks _ ih => exact .more (h.unify_cons (by decide)) hblanks.unify ih

/-- What a document spells it also spells with its line ends made one of a kind. -/
theorem SpellsObject.unify {entries : List (String × CodeText)} {document : List Char}
    (h : SpellsObject entries document) : SpellsObject entries (unifyLineEnds document) := by
  cases h with
  | empty hbefore hinside hbehind =>
    exact .empty (hbefore.unify_cons (by decide)) (hinside.unify_cons (by decide)) hbehind.unify
  | fields hbefore hinside h hbehind =>
    exact .fields (hbefore.unify_cons (by decide)) hinside.unify h.unify hbehind.unify

end Json

/-! ### Configurations -/

namespace Config

/-- A configuration survives its document. However the entries that give it are spelled, they are
read as the configuration, without warnings, from a stream as from a file. -/
theorem read_spelled {config : Config} {entries : List (String × CodeText)} {document : List Char}
    (hgiven : config.GivenBy entries) (h : Json.SpellsObject entries document) (depth : Nat) :
    readDocument (depth + 1) document = ([], .ok config) ∧
      ∀ (files : Files) (path : String),
        files.open? path = .ok (Text.Utf8.encode document) →
          ofFile files (depth + 1) path = ([], .ok config) := by
  refine ⟨hgiven.readDocument h _, ?_⟩
  intro files path hopen
  have hread : readDocument (depth + 1) (Text.unifyLineEnds document) = ([], .ok config) :=
    hgiven.readDocument h.unify _
  simp only [ofFile, hopen, ofBytes, decodeWhole_encode, hread]
  rfl

/-- An operator beyond the basic plane, and a quote for macros. -/
def clefs : Config where
  operators := ['+', '𝄞']
  groupStart := '('
  groupEnd := ')'
  numberPrefix := '#'
  macroPrefix := '\x22'
  escapePrefix := '\\'
  nodup := by decide

/-- Three entries in another order, with blanks of all kinds and escapes of all kinds. The others are
those of the standard configuration. -/
theorem read_spelled_clefs :
    let entries : List (String × CodeText) :=
      [("macro_prefix", "\""), ("escape_prefix", "\\"), ("operators", "+𝄞")]
    let document := ["\r\n\x7b ", "\"macro\\u005fprefix\"", ":", "\"\\\"\"", ",\r",
      "\"escape_prefix\"", ":", "\"\\\\\"", "\t,\n",
      "\"operators\"", " : ", "\"+\\ud834\\uDD1e\"", " \x7d\r"].flatMap String.toList
    let files : Files := ⟨[(["p"], .file (Text.Utf8.encode document))]⟩
    clefs.GivenBy entries ∧ Json.SpellsObject entries document ∧
      readDocument documentLimit document = ([], .ok clefs) ∧
      ofFile files documentLimit "p" = ([], .ok clefs) := by
  intro entries document files
  have hgiven : clefs.GivenBy entries := ⟨by decide, by decide⟩
  have hunderscore : ∀ rest, Json.SpellsUnit '_'.toNat ("\\u005f".toList ++ rest) rest := by
    intro rest
    exact .digits (w := 0) (x := 0) (y := 5) (z := 15) (by decide) (by decide) (by decide)
      (by decide)
  have hhigh : ∀ rest, Json.SpellsUnit 0xD834 ("\\ud834".toList ++ rest) rest := by
    intro rest
    exact .digits (w := 13) (x := 8) (y := 3) (z := 4) (by decide) (by decide) (by decide)
      (by decide)
  have hlow : ∀ rest, Json.SpellsUnit 0xDD1E ("\\uDD1e".toList ++ rest) rest := by
    intro rest
    exact .digits (w := 13) (x := 13) (y := 1) (z := 14) (by decide) (by decide) (by decide)
      (by decide)
  -- each text with its quotes, whatever follows
  have hfirst : ∀ rest,
      Json.SpellsString "macro_prefix" ("\"macro\\u005fprefix\"".toList ++ rest) rest := by
    intro rest
    have htail : Json.SpellsText "_prefix".toList ("\\u005fprefix\"".toList ++ rest) rest :=
      .char (.unit (hunderscore _)) (.plain (by simp : ∀ c ∈ "prefix".toList, _) .close)
    exact .quoted (.plain (by simp : ∀ c ∈ "macro".toList, _) htail)
  have hquote : ∀ rest, Json.SpellsString "\"" ("\"\\\"\"".toList ++ rest) rest :=
    fun _ => .quoted (.char (.short (by decide)) .close)
  have hsecond : ∀ rest,
      Json.SpellsString "escape_prefix" ("\"escape_prefix\"".toList ++ rest) rest :=
    fun _ => .quoted (.plain (by simp : ∀ c ∈ "escape_prefix".toList, _) .close)
  have hbackslash : ∀ rest, Json.SpellsString "\\" ("\"\\\\\"".toList ++ rest) rest :=
    fun _ => .quoted (.char (.short (by decide)) .close)
  have hthird : ∀ rest,
      Json.SpellsString "operators" ("\"operators\"".toList ++ rest) rest :=
    fun _ => .quoted (.plain (by simp : ∀ c ∈ "operators".toList, _) .close)
  have hclef : ∀ rest, Json.SpellsString "+𝄞" ("\"+\\ud834\\uDD1e\"".toList ++ rest) rest :=
    fun _ => .quoted (.plain (by simp : ∀ c ∈ ['+'], _)
      (.char (.pair (by decide) (hhigh _) (hlow _)) .close))
  have hspells : Json.SpellsObject entries document :=
    .fields (.more (by decide) (.more (by decide) .none)) (.more (by decide) .none)
      (.more (.colon (hfirst _) .none .none (hquote _) .none) (.more (by decide) .none)
        (.more (.colon (hsecond _) .none .none (hbackslash _) (.more (by decide) .none))
          (.more (by decide) .none)
          (.last (.colon (hthird _) (.more (by decide) .none) (.more (by decide) .none)
            (hclef _) (.more (by decide) .none)))))
      (.more (by decide) .none)
  have hopen : files.open? "p" = .ok (Text.Utf8.encode document) := by
    rw [Files.open?, Files.locate, Path.names_p]
    rfl
  obtain ⟨hstream, hfile⟩ := read_spelled hgiven hspells 899
  exact ⟨hgiven, hspells, hstream, hfile files "p" hopen⟩

end Config

end Unroll
