import Mathlib.Data.List.Induction
import Unroll.Proofs.Locality
import Unroll.Proofs.Storage

/-!
# The fields of a document

A document that is an object is put together from fields, each of which is a name and a value that
could be read by themselves, with blanks anywhere. What configuration it describes, or what is wrong
with it, depends on the last values of the six names that stand for a role and on nothing else.
Every other name is warned about once.

* `Json.FieldText`, `Json.ObjectText` — the documents that are objects, and `ObjectText.read`,
  `exists_objectText` — that they are;
* `lastValue?`, `Config.ofLastValues` — what a configuration is made of;
* `Config.Alike` — ways to change the fields that leave the last values as they are;
* `Config.Ignored` — the names that are warned about;
* `Config.readDocument_object` — what a document that is an object is read as.
-/

namespace Unroll

namespace Json

/-! ### Objects as they stand in documents -/

/-- A field as it stands in a document: characters that are read as its name, and as its value. -/
structure FieldText (depth : Nat) where
  nameText : List Char
  valueText : List Char
  name : CodeText
  value : Value
  name_read : read depth nameText = .ok (.text name)
  value_read : read depth valueText = .ok value

/-- An object as it stands in a document. The blanks inside the braces may be all that is there. -/
structure ObjectText (depth : Nat) where
  before : List Char
  inside : List Char
  entries : List (FieldText depth)
  after : List Char
  before_blank : AllBlank before
  inside_blank : AllBlank inside
  after_blank : AllBlank after

namespace FieldText

variable {depth : Nat}

/-- The characters of a field. -/
def text (f : FieldText depth) : List Char := f.nameText ++ ':' :: f.valueText

/-- The field that is read. -/
def field (f : FieldText depth) : CodeText × Value := (f.name, f.value)

/-- The characters of fields, with the closing brace. -/
def texts (fs : List (FieldText depth)) : List Char :=
  [','].intercalate (fs.map text) ++ ['\x7d']

theorem texts_singleton (f : FieldText depth) : texts [f] = f.text ++ ['\x7d'] := by
  simp [texts]

theorem texts_cons_cons (f g : FieldText depth) (fs : List (FieldText depth)) :
    texts (f :: g :: fs) = f.text ++ ',' :: texts (g :: fs) := by
  simp [texts, List.intercalate, List.append_assoc]

/-- The field is read from its characters, but for the blanks in front. -/
theorem reads (f : FieldText depth) :
    ∃ gap s, f.text = gap ++ s ∧ AllBlank gap ∧ ReadsField depth f.field s := by
  obtain ⟨before, inside, last, hname, hbefore, hread, hlast⟩ := read_ok f.name_read
  obtain ⟨t, hinside, htext⟩ := readValue_text hread
  obtain ⟨before', inside', last', hvalue, hbefore', hread', hlast'⟩ := read_ok f.value_read
  obtain ⟨front, hfront, hopens, hv⟩ := valuesLocal _ _ _ _ _ hread'
  refine ⟨before, _, ?_, hbefore, .colon htext hlast hbefore' hopens hv hlast'⟩
  rw [text, hname, hvalue, hinside, hfront]
  simp only [List.append_assoc, List.cons_append]

/-- The fields are read from their characters, but for the blanks in front. -/
theorem readsAll (f : FieldText depth) (fs : List (FieldText depth)) :
    ∃ gap s, texts (f :: fs) = gap ++ s ∧ AllBlank gap ∧
      ReadsFields depth ((f :: fs).map field) s := by
  induction fs generalizing f with
  | nil =>
    obtain ⟨gap, s, hsplit, hgap, hread⟩ := f.reads
    refine ⟨gap, s ++ ['\x7d'], ?_, hgap, .last hread⟩
    rw [texts_singleton, hsplit, List.append_assoc]
  | cons g fs ih =>
    obtain ⟨gap, s, hsplit, hgap, hread⟩ := f.reads
    obtain ⟨gap', t, hsplit', hgap', hrest⟩ := ih g
    refine ⟨gap, s ++ ',' :: (gap' ++ t), ?_, hgap, .more hread hgap' hrest⟩
    rw [texts_cons_cons, hsplit, hsplit', List.append_assoc]

end FieldText

variable {depth : Nat}

theorem AllBlank.append {s t : List Char} (hs : AllBlank s) (ht : AllBlank t) :
    AllBlank (s ++ t) :=
  fun c hc => (List.mem_append.1 hc).elim (hs c) (ht c)

theorem allBlank_nil : AllBlank [] := fun _ hc => absurd hc List.not_mem_nil

/-- What a field was read from is the text of a field. -/
theorem ReadsField.exists_text {field : CodeText × Value} {s : List Char}
    (h : ReadsField depth field s) {gap : List Char} (hgap : AllBlank gap) :
    ∃ f : FieldText depth, f.field = field ∧ f.text = gap ++ s := by
  cases h with
  | @colon name v t before behind front last hname hbefore hbehind hopens hv hlast =>
    refine ⟨⟨gap ++ (('\x22' :: t) ++ before), behind ++ (front ++ last), name, v,
      read_of_readsValue hgap ⟨_, _, rfl, by decide⟩ (readsValue_text hname) hbefore,
      read_of_readsValue hbehind hopens hv hlast⟩, rfl, ?_⟩
    simp only [FieldText.text, List.append_assoc, List.cons_append]

/-- What fields were read from is the text of fields. -/
theorem ReadsFields.exists_texts {fields : List (CodeText × Value)} {s : List Char}
    (h : ReadsFields depth fields s) {gap : List Char} (hgap : AllBlank gap) :
    ∃ fs : List (FieldText depth), fs ≠ [] ∧ fs.map FieldText.field = fields ∧
      FieldText.texts fs = gap ++ s := by
  induction h generalizing gap with
  | last h =>
    obtain ⟨f, rfl, htext⟩ := h.exists_text hgap
    refine ⟨[f], List.cons_ne_nil _ _, rfl, ?_⟩
    rw [FieldText.texts_singleton, htext, List.append_assoc]
  | more h hgap' _ ih =>
    obtain ⟨f, rfl, htext⟩ := h.exists_text hgap
    obtain ⟨fs, hne, rfl, htexts⟩ := ih hgap'
    obtain ⟨g, fs, rfl⟩ := List.exists_cons_of_ne_nil hne
    refine ⟨f :: g :: fs, List.cons_ne_nil _ _, rfl, ?_⟩
    rw [FieldText.texts_cons_cons, htexts, htext, List.append_assoc]

namespace ObjectText

/-- The characters of the document. -/
def text (o : ObjectText depth) : List Char :=
  o.before ++ '\x7b' :: (o.inside ++ (FieldText.texts o.entries ++ o.after))

/-- The fields that are read, one after the other. -/
def fields (o : ObjectText depth) : List (CodeText × Value) := o.entries.map FieldText.field

/-- The document is the object of its fields. -/
theorem read (o : ObjectText depth) :
    Json.read (depth + 1) o.text = .ok (.object (setFields [] o.fields)) := by
  have hvalue : ∃ front, '\x7b' :: (o.inside ++ FieldText.texts o.entries) = '\x7b' :: front ∧
      ReadsValue (depth + 1) (.object (setFields [] o.fields)) ('\x7b' :: front) := by
    rcases hentries : o.entries with _ | ⟨f, fs⟩
    · refine ⟨_, rfl, ?_⟩
      rw [fields, hentries]
      exact readsValue_noFields o.inside_blank
    · obtain ⟨gap, s, hsplit, hgap, hread⟩ := f.readsAll fs
      refine ⟨o.inside ++ gap ++ s, by rw [hsplit, List.append_assoc], ?_⟩
      rw [fields, hentries]
      exact readsValue_fields (o.inside_blank.append hgap) hread
  obtain ⟨front, hfront, hread⟩ := hvalue
  have htext : o.text = o.before ++ ('\x7b' :: front ++ o.after) := by
    rw [text, ← hfront, List.cons_append, List.append_assoc]
  rw [htext]
  exact read_of_readsValue o.before_blank ⟨_, _, rfl, by decide⟩ hread o.after_blank

end ObjectText

/-- Every document that is an object is put together in this way. -/
theorem exists_objectText {document : List Char} {fields : List (CodeText × Value)}
    (h : read (depth + 1) document = .ok (.object fields)) :
    ∃ o : ObjectText depth, o.text = document := by
  obtain ⟨before, start, last, hsplit, hbefore, hread, hlast⟩ := read_ok h
  obtain ⟨inside, gap, hdepth, hgap, hobject⟩ := readValue_object hread
  obtain rfl := Nat.succ.inj hdepth
  rcases hobject with ⟨hstart, rfl⟩ | ⟨entries, front, hstart, rfl, hfields⟩
  · refine ⟨⟨before, gap, [], last.rest, hbefore, hgap, hlast⟩, ?_⟩
    rw [hsplit, hstart]
    rfl
  · obtain ⟨fs, -, -, htexts⟩ := hfields.exists_texts hgap
    refine ⟨⟨before, [], fs, last.rest, hbefore, allBlank_nil, hlast⟩, ?_⟩
    rw [hsplit, hstart]
    simp only [ObjectText.text, htexts, List.nil_append, List.append_assoc]

/-! ### Last values -/

/-- The value that fields give a name last. -/
def lastValue? (fields : List (CodeText × Value)) (name : CodeText) : Option Value :=
  (fields.filter (·.1 = name)).getLast?.map (·.2)

theorem lastValue?_cons (field : CodeText × Value) (fields : List (CodeText × Value))
    (name : CodeText) :
    lastValue? (field :: fields) name =
      (lastValue? fields name).or (if field.1 = name then some field.2 else none) := by
  by_cases h : field.1 = name
  · rw [lastValue?, lastValue?, List.filter_cons_of_pos (by simpa using h), List.getLast?_cons,
      if_pos h]
    cases (fields.filter (·.1 = name)).getLast? <;> rfl
  · rw [lastValue?, lastValue?, List.filter_cons_of_neg (by simpa using h), if_neg h,
      Option.or_none]

theorem field?_setField (name other : CodeText) (v : Value) (fields : List (CodeText × Value)) :
    field? (setField name v fields) other =
      if name = other then some v else field? fields other := by
  induction fields with
  | nil => by_cases h : name = other <;> simp [setField, field?, h]
  | cons field fields ih =>
    have hcons : ∀ rest, field? (field :: rest) other =
        if field.1 = other then some field.2 else field? rest other := by
      intro rest
      by_cases h : field.1 = other <;> simp [field?, h]
    by_cases hfield : field.1 = name
    · rw [setField, if_pos hfield, hcons]
      by_cases h : name = other <;> simp [field?, h, hfield]
    · rw [setField, if_neg hfield, hcons, hcons, ih]
      by_cases h : name = other
      · subst h
        rw [if_neg hfield, if_pos rfl, if_pos rfl]
      · rw [if_neg h, if_neg h]

/-- Fields that are read one after the other give a name its last value. -/
theorem field?_setFields (fields entries : List (CodeText × Value)) (name : CodeText) :
    field? (setFields fields entries) name = (lastValue? entries name).or (field? fields name) := by
  induction entries generalizing fields with
  | nil => rfl
  | cons entry entries ih =>
    have hcons : setFields fields (entry :: entries) =
        setFields (setField entry.1 entry.2 fields) entries := rfl
    rw [hcons, ih, field?_setField, lastValue?_cons, Option.or_assoc]
    by_cases h : entry.1 = name
    · rw [if_pos h, if_pos h, Option.some_or]
    · rw [if_neg h, if_neg h, Option.none_or]

/-- The value of a name that only one field has is its last value. -/
theorem lastValue?_of_nodup {fields : List (CodeText × Value)} (h : (names fields).Nodup)
    (name : CodeText) : lastValue? fields name = field? fields name := by
  induction fields with
  | nil => rfl
  | cons field fields ih =>
    obtain ⟨hnew, hrest⟩ := List.nodup_cons.1 h
    have hfirst : field? (field :: fields) name =
        if field.1 = name then some field.2 else field? fields name := by
      by_cases hname : field.1 = name <;> simp [field?, hname]
    rw [lastValue?_cons, ih hrest, hfirst]
    by_cases hname : field.1 = name
    · subst hname
      have hnone : fields.find? (fun other => other.1 = field.1) = none := by
        rw [List.find?_eq_none]
        intro other hother heq
        exact hnew (List.mem_map.2 ⟨other, hother, by simpa using heq⟩)
      rw [field?, hnone, if_pos rfl, if_pos rfl]
      rfl
    · rw [if_neg hname, if_neg hname, Option.or_none]

/-! ### The names of fields that were read -/

/-- The names that fields were given, in the order in which they were given first. -/
theorem names_setFields (entries : List (CodeText × Value)) :
    names (setFields [] entries) = (names entries).eraseDups := by
  induction entries using List.reverseRecOn with
  | nil => rfl
  | append_singleton entries entry ih =>
    have hnames : names (entries ++ [entry]) = names entries ++ [entry.1] := List.map_append
    have hset : setFields [] (entries ++ [entry]) =
        setField entry.1 entry.2 (setFields [] entries) := List.foldl_append
    rw [hset, names_setField, ih, hnames, List.eraseDups_append]
    by_cases hold : entry.1 ∈ names entries
    · simp [List.removeAll, hold]
    · simp [List.removeAll, hold, List.eraseDups_cons]

theorem nodup_setFields (entries : List (CodeText × Value)) :
    (names (setFields [] entries)).Nodup := by
  rw [names_setFields]
  exact nodup_eraseDups _

end Json

open Json (Value names lastValue? setFields)

namespace Settings

/-- Settings that are given by fields are the last values of the roles, and else the standard
ones. -/
theorem ofFields_lastValue? (fields : List (CodeText × Value)) :
    ∃ settings, ofFields (Config.knownFields fields) = .ok settings ∧
      ∀ role, settings.get role = (lastValue? fields role.key).getD (standard.get role) := by
  rw [ofFields]
  generalize standard = start
  induction fields generalizing start with
  | nil => exact ⟨start, rfl, fun _ => rfl⟩
  | cons field fields ih =>
    rcases hrole : Role.ofKey? field.1 with _ | role
    · have hunknown : Config.knownFields (field :: fields) = Config.knownFields fields :=
        List.filter_cons_of_neg (by simp [hrole])
      obtain ⟨settings, hsettings, hget⟩ := ih start
      refine ⟨settings, by rw [hunknown, hsettings], fun other => ?_⟩
      have hne : field.1 ≠ other.key := by
        intro heq
        rw [heq, Role.ofKey?_key] at hrole
        cases hrole
      rw [hget, Json.lastValue?_cons, if_neg hne, Option.or_none]
    · have hknown : Config.knownFields (field :: fields) = field :: Config.knownFields fields :=
        List.filter_cons_of_pos (by simp [hrole])
      obtain ⟨settings, hsettings, hget⟩ := ih (start.set field.2 role)
      refine ⟨settings, ?_, fun other => ?_⟩
      · rw [hknown, List.foldlM_cons]
        simp only [hrole]
        exact hsettings
      · rw [hget, Json.lastValue?_cons]
        have hkey := Config.key_of_ofKey? hrole
        by_cases hother : other = role
        · subst hother
          rw [if_pos hkey, get_set_self]
          cases lastValue? fields other.key <;> rfl
        · have hne : field.1 ≠ other.key := fun heq => hother (Role.eq_of_key (heq.symm.trans hkey))
          rw [if_neg hne, Option.or_none, get_set_of_ne _ _ hother]

end Settings

namespace Config

/-! ### What a configuration is made of -/

/-- The fields of the roles that are given a value. -/
def givenFields (given : Role → Option Value) : List (CodeText × Value) :=
  Role.all.filterMap fun role => (given role).map fun v => (role.key, v)

/-- The configuration that the values given for the roles describe, if the operators, when they are
given, are a text. -/
def ofLastValues (given : Role → Option Value) : Except DocumentFault Config :=
  match given .operator with
  | some (.text _) | none =>
    (Settings.ofFields (givenFields given) >>= ofSettings).mapError .invalid
  | some v => .error (.operatorsNotText v)

theorem lastValue?_givenFields (given : Role → Option Value) (role : Role) :
    lastValue? (givenFields given) role.key = given role := by
  have hlist : ∀ roles : List Role,
      lastValue? (roles.filterMap fun role => (given role).map fun v => (role.key, v)) role.key =
        if role ∈ roles then given role else none := by
    intro roles
    induction roles with
    | nil => rfl
    | cons first roles ih =>
      rcases hgiven : given first with _ | v
      · rw [List.filterMap_cons_none (by rw [hgiven]; rfl), ih]
        by_cases hrole : role = first
        · subst hrole
          rw [hgiven, if_pos List.mem_cons_self]
          split <;> rfl
        · simp [hrole]
      · rw [List.filterMap_cons_some (by rw [hgiven]; rfl), Json.lastValue?_cons, ih]
        by_cases hrole : role = first
        · subst hrole
          rw [hgiven, if_pos rfl, if_pos List.mem_cons_self]
          split <;> rfl
        · have hne : CodeText.ofString first.key ≠ CodeText.ofString role.key :=
            fun heq => hrole (Role.eq_of_key heq).symm
          simp [hrole, hne]
  have hall : role ∈ Role.all := by cases role <;> decide
  rw [givenFields, hlist, if_pos hall]

theorem knownFields_givenFields (given : Role → Option Value) :
    knownFields (givenFields given) = givenFields given := by
  refine List.filter_eq_self.2 fun field hfield => ?_
  obtain ⟨role, -, hrole⟩ := List.mem_filterMap.1 hfield
  obtain ⟨v, -, rfl⟩ := Option.map_eq_some_iff.1 hrole
  rw [Role.ofKey?_key]
  rfl

/-- Fields that were read describe the configuration of the last values. -/
theorem ofFields_setFields (entries : List (CodeText × Value)) :
    ofFields (setFields [] entries) = ofLastValues fun role => lastValue? entries role.key := by
  have hlast : ∀ name, lastValue? (setFields [] entries) name = lastValue? entries name := by
    intro name
    rw [Json.lastValue?_of_nodup (Json.nodup_setFields entries),
      Json.field?_setFields]
    exact Option.or_none
  have hfield : Json.field? (setFields [] entries) (Role.key .operator) =
      lastValue? entries (Role.key .operator) := by
    rw [Json.field?_setFields]
    exact Option.or_none
  have hsettings : Settings.ofFields (knownFields (setFields [] entries)) =
      Settings.ofFields (givenFields fun role => lastValue? entries role.key) := by
    obtain ⟨settings, hmade, hget⟩ := Settings.ofFields_lastValue? (setFields [] entries)
    obtain ⟨settings', hmade', hget'⟩ :=
      Settings.ofFields_lastValue? (givenFields fun role => lastValue? entries role.key)
    rw [knownFields_givenFields] at hmade'
    rw [hmade, hmade']
    refine congrArg Except.ok (Settings.eq_of_get fun role => ?_)
    rw [hget, hget', hlast, lastValue?_givenFields]
  rw [ofFields, checkOperators, hfield, hsettings, ofLastValues]
  rcases lastValue? entries (Role.key .operator) with _ | v
  · rfl
  · cases v <;> rfl

/-! ### Fields that come to the same -/

/-- The last field of every name. -/
def lastOnly : List (CodeText × Value) → List (CodeText × Value)
  | [] => []
  | field :: fields =>
    if field.1 ∈ names fields then lastOnly fields else field :: lastOnly fields

/-- Ways in which fields may differ that come to the same. -/
inductive Alike (fields : List (CodeText × Value)) : List (CodeText × Value) → Prop where
  /-- fields of different names stand in another order -/
  | moved {others : List (CodeText × Value)}
      (h : ∀ name, others.filter (·.1 = name) = fields.filter (·.1 = name)) : Alike fields others
  /-- the fields that are ignored are left out -/
  | known : Alike fields (knownFields fields)
  /-- the fields that are given again are left out -/
  | last : Alike fields (lastOnly fields)
  /-- the six names have the same last values -/
  | values {others : List (CodeText × Value)}
      (h : ∀ role : Role, lastValue? others role.key = lastValue? fields role.key) :
      Alike fields others

theorem lastValue?_knownFields (fields : List (CodeText × Value)) (role : Role) :
    lastValue? (knownFields fields) role.key = lastValue? fields role.key := by
  have hfilter : (knownFields fields).filter (·.1 = CodeText.ofString role.key) =
      fields.filter (·.1 = CodeText.ofString role.key) := by
    rw [knownFields, List.filter_filter]
    refine List.filter_congr fun field _ => ?_
    by_cases h : field.1 = role.key
    · simp [h, Role.ofKey?_key]
    · simp [h]
  rw [lastValue?, hfilter, lastValue?]

theorem exists_lastValue? {fields : List (CodeText × Value)} {name : CodeText}
    (h : name ∈ names fields) : ∃ v, lastValue? fields name = some v := by
  induction fields with
  | nil => exact absurd h List.not_mem_nil
  | cons field fields ih =>
    rw [Json.lastValue?_cons]
    rcases List.mem_cons.1 h with rfl | h
    · rcases lastValue? fields field.1 with _ | v
      · exact ⟨field.2, by rw [if_pos rfl]; rfl⟩
      · exact ⟨v, rfl⟩
    · obtain ⟨v, hv⟩ := ih h
      exact ⟨v, by rw [hv]; rfl⟩

theorem lastValue?_lastOnly (fields : List (CodeText × Value)) (name : CodeText) :
    lastValue? (lastOnly fields) name = lastValue? fields name := by
  induction fields with
  | nil => rfl
  | cons field fields ih =>
    rw [lastOnly, Json.lastValue?_cons]
    split
    · rename_i hagain
      rw [ih]
      by_cases h : field.1 = name
      · obtain ⟨v, hv⟩ := exists_lastValue? (h ▸ hagain)
        rw [hv, Option.some_or]
      · rw [if_neg h, Option.or_none]
    · rw [Json.lastValue?_cons, ih]

theorem Alike.lastValue? {fields others : List (CodeText × Value)} (h : Alike fields others)
    (role : Role) : lastValue? others role.key = lastValue? fields role.key := by
  cases h with
  | moved h => rw [Json.lastValue?, h, Json.lastValue?]
  | known => exact lastValue?_knownFields fields role
  | last => exact lastValue?_lastOnly fields role.key
  | values h => exact h role

/-! ### Warnings -/

/-- The names that have no role, each once, in the order in which they stand first. -/
structure Ignored (given ignored : List CodeText) : Prop where
  nodup : ignored.Nodup
  mem : ∀ name, name ∈ ignored ↔ name ∈ given ∧ Role.ofKey? name = none
  order : ignored.Pairwise fun a b => given.idxOf a < given.idxOf b

/-- What is warned about. -/
theorem warnings_setFields (entries : List (CodeText × Value)) :
    ∃ ignored, Ignored (names entries) ignored ∧
      warnings (setFields [] entries) =
        ignored.map fun name => "Ignoring unknown config key " ++ Text.quoted name := by
  refine ⟨(names entries).eraseDups.filter fun name => (Role.ofKey? name).isNone,
    ⟨(nodup_eraseDups _).filter _, fun name => ?_, (pairwise_eraseDups _).filter _⟩, ?_⟩
  · rw [List.mem_filter, List.mem_eraseDups, Option.isNone_iff_eq_none]
  · rw [warnings, ← Json.names_setFields, names, List.filter_map, List.map_map]
    rfl

/-! ### Documents -/

/-- What a document that is an object is read as. Its fields may be written in any way and have any
values. The configuration, or what is wrong, is that of the last values of the six names, so that
it stays the same when fields of different names change places, when unknown ones are left out, and
when those that are given again are left out. There is one warning for each unknown name, whatever
becomes of the configuration. -/
theorem readDocument_object (depth : Nat) :
    (∀ document fields, Json.read (depth + 1) document = .ok (.object fields) →
      ∃ o : Json.ObjectText depth, o.text = document) ∧
    ∀ o : Json.ObjectText depth,
      (readDocument (depth + 1) o.text).2 =
        ofLastValues (fun role => lastValue? o.fields role.key) ∧
      (∀ o' : Json.ObjectText depth, Alike o.fields o'.fields →
        (readDocument (depth + 1) o'.text).2 = (readDocument (depth + 1) o.text).2) ∧
      ∃ ignored, Ignored (names o.fields) ignored ∧
        (readDocument (depth + 1) o.text).1 =
          ignored.map fun name => "Ignoring unknown config key " ++ Text.quoted name := by
  have hread : ∀ o : Json.ObjectText depth, readDocument (depth + 1) o.text =
      (warnings (setFields [] o.fields),
        ofLastValues fun role => lastValue? o.fields role.key) := by
    intro o
    rw [← ofFields_setFields]
    simp only [readDocument, o.read]
  refine ⟨fun document fields h => Json.exists_objectText h, fun o => ⟨?_, fun o' halike => ?_, ?_⟩⟩
  · rw [hread]
  · have hsame : (fun role : Role => lastValue? o'.fields role.key) =
        fun role => lastValue? o.fields role.key := funext halike.lastValue?
    rw [hread, hread, hsame]
  · rw [hread]
    exact warnings_setFields o.fields

/-- The symbol for macros is given twice, first one that is an operator, and there are two unknown
names, one of them given twice. Without what is given again the configuration is the same. -/
theorem readDocument_object_again :
    let macros (symbol : String) : CodeText × Value := ("macro_prefix", .text symbol)
    let given := [macros "+", ("x", .integer 1), macros "!", ("y", .list []), ("x", .null)]
    let last := [macros "!", ("y", .list []), ("x", .null)]
    ∃ o o' : Json.ObjectText 1, o.fields = given ∧ o'.fields = last ∧ Alike given last ∧
      o.text = ("\x7b\"macro_prefix\": \"+\", \"x\": 1, \"macro_prefix\": \"!\"," ++
        "\"y\": [],\"x\":null\x7d").toList ∧
      (∃ config, (readDocument 2 o.text).2 = .ok config ∧ config.macroPrefix = '!') ∧
      (readDocument 2 o'.text).2 = (readDocument 2 o.text).2 ∧
      ∃ ignored, Ignored (names given) ignored ∧
        (readDocument 2 o.text).1 =
          ignored.map fun name => "Ignoring unknown config key " ++ Text.quoted name := by
  intro macros given last
  let plus : Json.FieldText 1 :=
    ⟨"\"macro_prefix\"".toList, " \"+\"".toList, "macro_prefix", .text "+", rfl, rfl⟩
  let first : Json.FieldText 1 := ⟨" \"x\"".toList, " 1".toList, "x", .integer 1, rfl, rfl⟩
  let bang : Json.FieldText 1 :=
    ⟨" \"macro_prefix\"".toList, " \"!\"".toList, "macro_prefix", .text "!", rfl, rfl⟩
  let list : Json.FieldText 1 := ⟨"\"y\"".toList, " []".toList, "y", .list [], rfl, rfl⟩
  let again : Json.FieldText 1 := ⟨"\"x\"".toList, "null".toList, "x", .null, rfl, rfl⟩
  let object (entries : List (Json.FieldText 1)) : Json.ObjectText 1 :=
    ⟨[], [], entries, [], Json.allBlank_nil, Json.allBlank_nil, Json.allBlank_nil⟩
  let o := object [plus, first, bang, list, again]
  let o' := object [bang, list, again]
  have halike : Alike given last := .last
  obtain ⟨-, hobject⟩ := readDocument_object 1
  obtain ⟨hconfig, hsame, hwarnings⟩ := hobject o
  have htext : o.text = ("\x7b\"macro_prefix\": \"+\", \"x\": 1, \"macro_prefix\": \"!\"," ++
      "\"y\": [],\"x\":null\x7d").toList := by
    simp [o, object, plus, first, bang, list, again, Json.ObjectText.text, Json.FieldText.texts,
      Json.FieldText.text, List.intercalate]
  have hfields : o.fields = given := rfl
  have hfields' : o'.fields = last := rfl
  rw [hfields] at hwarnings
  have hsame' := hsame o' (by rw [hfields, hfields']; exact halike)
  refine ⟨o, o', hfields, hfields', halike, htext, ?_, hsame', hwarnings⟩
  rw [hconfig]
  exact ⟨_, rfl, rfl⟩

/-- Two different halves of surrogate pairs are two names, or two symbols. -/
example :
    (readDocument 1 "\x7b\"\\ud800\":1,\"\\udc00\":2\x7d".toList).1 =
      ["Ignoring unknown config key '\\ud800'", "Ignoring unknown config key '\\udc00'"] ∧
    (readDocument 1 ("\x7b\"number_prefix\":\"\\ud800\"," ++
      "\"macro_prefix\":\"\\udc00\"\x7d").toList).2.toOption.map
        (fun config => (config.numberPrefix, config.macroPrefix)) =
      some (.half 0, .half 0x400) := by
  decide +kernel

end Config

end Unroll
