import Unroll.Preprocess
import Unroll.Proofs.Configurations
import Unroll.Proofs.Encoding
import Unroll.Proofs.FileTree
import Unroll.Proofs.Parsing

/-!
# Configuration documents

The fields of an object that was read have different names, since a field that is given again takes
the place of the one before. So the operators that are looked at before a configuration is made of a
document are those that it is made of. All that can be wrong with a document that is read is that it
is no object, that its operators are no text, or what the check of the configuration finds.

* `Json.Value.FieldsApart`, `Json.read_apart` — the fields of an object have different names;
* `Json.read_brackets` — lists inside of each other that are too many are too deep;
* `Config.FileFault.Expected`, `Config.ofFile_error` — why a file gives no configuration.
-/

namespace Unroll

namespace Json

/-! ### The names of fields -/

/-- The names of fields. -/
def names (fields : List (CodeText × Value)) : List CodeText := fields.map (·.1)

theorem names_setField (name : CodeText) (v : Value) (fields : List (CodeText × Value)) :
    names (setField name v fields) =
      if name ∈ names fields then names fields else names fields ++ [name] := by
  induction fields with
  | nil => rfl
  | cons field fields ih =>
    by_cases hname : field.1 = name
    · rw [setField, if_pos hname]
      simp [names, hname]
    · rw [setField, if_neg hname]
      have hcons : ∀ rest, names (field :: rest) = field.1 :: names rest := fun _ => rfl
      rw [hcons, hcons, ih]
      by_cases hmem : name ∈ names fields
      · rw [if_pos hmem, if_pos (List.mem_cons_of_mem _ hmem)]
      · rw [if_neg hmem, if_neg (by simp [hmem, Ne.symm hname]), List.cons_append]

theorem nodup_setField {fields : List (CodeText × Value)} (h : (names fields).Nodup)
    (name : CodeText) (v : Value) : (names (setField name v fields)).Nodup := by
  rw [names_setField]
  split
  · exact h
  · rename_i hnew
    rw [List.nodup_append]
    refine ⟨h, List.nodup_singleton name, fun a ha b hb => ?_⟩
    obtain rfl := List.mem_singleton.1 hb
    rintro rfl
    exact hnew ha

theorem nodup_names_nil : (names []).Nodup := List.nodup_nil

/-- If a value is an object, its fields have different names. -/
def Value.FieldsApart : Value → Prop
  | .object fields => (names fields).Nodup
  | _ => True

/-! ### Reading -/

theorem readFields_apart {steps depth : Nat} {fields : List (CodeText × Value)}
    {cursor after : Cursor} {v : Value} (hfields : (names fields).Nodup)
    (h : readFields steps depth fields cursor = .ok (v, after)) : v.FieldsApart := by
  induction steps generalizing fields cursor with
  | zero =>
    rw [readFields] at h
    cases h
  | succ steps ih =>
    obtain ⟨name, inside, value, last, -, -, hend⟩ := readFields_ok h
    have hmore := nodup_setField hfields name value
    rcases hend with ⟨-, rfl⟩ | ⟨s, -, hrest⟩
    · exact hmore
    · exact ih hmore hrest

theorem Value.Plain.fieldsApart {v : Value} (h : v.Plain) : v.FieldsApart := by
  cases v with
  | object => exact absurd h id
  | _ => trivial

theorem readValue_apart {steps depth : Nat} {cursor after : Cursor} {v : Value}
    (h : readValue steps depth cursor = .ok (v, after)) : v.FieldsApart := by
  cases steps with
  | zero =>
    rw [readValue] at h
    cases h
  | succ steps =>
    cases readValue_ok h with
    | text | noItems => trivial
    | noFields => exact nodup_names_nil
    | fields _ hfields => exact readFields_apart nodup_names_nil hfields
    | items _ hitems =>
      obtain ⟨items, rfl⟩ := readItems_list hitems
      trivial
    | word hword => exact (readWord?_plain hword).fieldsApart
    | number hnumber => exact (readNumber?_plain hnumber).fieldsApart

/-- The fields of an object that is the value of a document have different names. -/
theorem read_apart {depth : Nat} {document : List Char} {v : Value}
    (h : read depth document = .ok v) : v.FieldsApart := by
  obtain ⟨last, hvalue, -⟩ := readValue_of_read h
  exact readValue_apart hvalue

/-! ### Lists inside of each other -/

theorem readValue_brackets {depth n steps index : Nat} (h : depth < n)
    (hsteps : 2 * depth + 1 ≤ steps) :
    readValue steps depth ⟨List.replicate n '[', index⟩ = .error .tooDeep := by
  induction depth generalizing n steps index with
  | zero =>
    obtain ⟨n, rfl⟩ : ∃ k, n = k + 1 := ⟨n - 1, by omega⟩
    obtain ⟨steps, rfl⟩ : ∃ k, steps = k + 1 := ⟨steps - 1, by omega⟩
    simp only [List.replicate_succ, readValue]
  | succ depth ih =>
    obtain ⟨n, rfl⟩ : ∃ k, n = k + 2 := ⟨n - 2, by omega⟩
    obtain ⟨steps, rfl⟩ : ∃ k, steps = k + 2 := ⟨steps - 2, by omega⟩
    have hinner : readValue steps depth ⟨List.replicate (n + 1) '[', index + 1⟩ =
        .error .tooDeep := ih (by omega) (by omega)
    have hblank : Cursor.isBlank '[' = false := by decide
    rw [List.replicate_succ] at hinner
    simp only [List.replicate_succ, readValue, Cursor.past, Cursor.skipBlanks,
      List.takeWhile_cons, List.dropWhile_cons, hblank, Bool.false_eq_true, if_false,
      List.length_nil, Nat.add_zero, readItems, hinner]
    rfl

/-- A document of too many lists inside of each other is too deep. -/
theorem read_brackets {depth n : Nat} (h : depth < n) :
    read depth (List.replicate n '[') = .error .tooDeep := by
  obtain ⟨n, rfl⟩ : ∃ k, n = k + 1 := ⟨n - 1, by omega⟩
  have hvalue : readValue (2 * (n + 1) + 2) depth ⟨List.replicate (n + 1) '[', 0⟩ =
      .error .tooDeep := readValue_brackets h (by omega)
  have hblank : Cursor.isBlank '[' = false := by decide
  rw [List.replicate_succ] at hvalue ⊢
  simp only [read, Cursor.past, Cursor.skipBlanks, List.takeWhile_cons, List.dropWhile_cons,
    hblank, Bool.false_eq_true, if_false, List.length_nil, Nat.add_zero, List.length_cons,
    List.length_replicate, hvalue]
  rfl

end Json

theorem Fault.isExpected_of_isSystem {f : Fault} (h : f.isSystem = true) :
    f.isExpected = true := by
  cases f with
  | unannounced _ => cases h
  | _ => rfl

/-! ### Configurations -/

namespace Config

open Json (Value names)

/-- The operators that were looked at are those that any field of their name gives. -/
theorem checkOperators_ok {fields : List (CodeText × Value)} (hapart : (names fields).Nodup)
    (h : checkOperators fields = .ok ()) {field : CodeText × Value} (hfield : field ∈ fields)
    (hname : field.1 = Role.key .operator) : ∃ s, field.2 = .text s := by
  have hsome :
      (fields.find? fun field => field.1 = (Role.key .operator : CodeText)).isSome = true :=
    List.find?_isSome.2 ⟨field, hfield, decide_eq_true hname⟩
  obtain ⟨found, hfound⟩ := Option.isSome_iff_exists.1 hsome
  have hsame : found = field := by
    have hkey : found.1 = Role.key .operator := by simpa using List.find?_some hfound
    exact List.inj_on_of_nodup_map hapart (List.mem_of_find?_eq_some hfound) hfield
      (hkey.trans hname.symm)
  rw [checkOperators, Json.field?, hfound, Option.map_some, hsame] at h
  split at h
  · rename_i htext
    exact ⟨_, Option.some.inj htext⟩
  · rename_i hnone
    cases hnone
  · cases h

theorem key_of_ofKey? {key : CodeText} {role : Role} (h : Role.ofKey? key = some role) :
    key = role.key := by
  have hkey := List.find?_some h
  exact (of_decide_eq_true hkey).symm

/-- Fields with different names give a configuration, or their operators are no text, or the check
of the configuration finds what is wrong. -/
theorem ofFields_error {fields : List (CodeText × Value)} (hapart : (names fields).Nodup)
    {fault : DocumentFault} (h : ofFields fields = .error fault) :
    (∃ v, fault = .operatorsNotText v) ∨ ∃ f, fault = .invalid f ∧ f.Invalid := by
  rcases hcheck : checkOperators fields with e | ⟨⟩
  · rw [ofFields, hcheck] at h
    obtain rfl := Except.error.inj h
    rw [checkOperators] at hcheck
    split at hcheck
    · cases hcheck
    · cases hcheck
    · obtain rfl := Except.error.inj hcheck
      exact .inl ⟨_, rfl⟩
  -- all names are known, so that the fields are settings
  · have hknown : ∀ field ∈ knownFields fields, (Role.ofKey? field.1).isSome = true :=
      fun _ hfield => (List.mem_filter.1 hfield).2
    obtain ⟨settings, hsettings, hoperators⟩ := Settings.ofFields_known hknown
    rw [ofFields, hcheck, hsettings] at h
    change (ofSettings settings).mapError _ = _ at h
    have helements : ∃ vs, elements? settings.operators = some vs := by
      rcases hoperators with hstandard | ⟨field, hfield, hrole, hvalue⟩
      · rw [hstandard]
        exact ⟨_, rfl⟩
      · obtain ⟨s, htext⟩ := checkOperators_ok hapart hcheck (List.mem_filter.1 hfield).1
          (key_of_ofKey? hrole)
        rw [hvalue, htext]
        exact ⟨_, rfl⟩
    obtain ⟨vs, hvs⟩ := helements
    rcases hresult : ofSettings settings with f | config
    · rw [hresult] at h
      obtain rfl := Except.error.inj h
      exact .inr ⟨f, rfl, ofSettings_error hvs hresult⟩
    · rw [hresult] at h
      cases h

/-- What may be expected to be wrong with a configuration file: it cannot be opened or is no text,
its document is malformed, or describes no configuration. -/
inductive FileFault.Expected : FileFault → Prop where
  | fault {f : Fault} (h : f.isExpected = true) : Expected (.fault f)
  | malformed (complaint : Json.Complaint) (line column : Nat) :
      Expected (.document (.malformed complaint line column))
  | oversized (digits : Nat) : Expected (.document (.oversized digits))
  | notObject (kind : String) : Expected (.document (.notObject kind))
  | operatorsNotText (v : Value) : Expected (.document (.operatorsNotText v))
  | invalid {f : Settings.Fault} (h : f.Invalid) : Expected (.document (.invalid f))

/-- A document describes a configuration, is wrong as may be expected, or is too deep. -/
theorem readDocument_error {depth : Nat} {document : List Char} {fault : DocumentFault}
    (h : (readDocument depth document).2 = .error fault) :
    FileFault.Expected (.document fault) ∨
      fault = .tooDeep ∧ Json.read depth document = .error .tooDeep := by
  rw [readDocument] at h
  split at h
  · obtain rfl := Except.error.inj h
    exact .inl (.malformed ..)
  · obtain rfl := Except.error.inj h
    exact .inl (.oversized _)
  · rename_i hdeep
    obtain rfl := Except.error.inj h
    exact .inr ⟨rfl, hdeep⟩
  · rename_i hread
    rcases ofFields_error (Json.read_apart hread) h with ⟨v, rfl⟩ | ⟨f, rfl, hf⟩
    · exact .inl (.operatorsNotText v)
    · exact .inl (.invalid hf)
  · obtain rfl := Except.error.inj h
    exact .inl (.notObject _)

theorem readDocument_of_tooDeep {depth : Nat} {document : List Char}
    (h : Json.read depth document = .error .tooDeep) :
    readDocument depth document = ([], .error .tooDeep) := by
  simp only [readDocument, h]

/-- The document in the file at a path is nested more than `depth` deep. -/
def TooDeep (files : Files) (depth : Nat) (path : String) : Prop :=
  ∃ bytes document, files.open? path = .ok bytes ∧ decodeWhole bytes = .ok document ∧
    Json.read depth document = .error .tooDeep

variable {files : Files} {depth : Nat} {path : String}

/-- A file gives a configuration, is wrong as may be expected, or its document is too deep. -/
theorem ofFile_error {e : FileFault} (h : (ofFile files depth path).2 = .error e) :
    e.Expected ∨ e = .document .tooDeep ∧ TooDeep files depth path := by
  rcases hopen : files.open? path with f | bytes
  · simp only [ofFile, hopen] at h
    obtain rfl := Except.error.inj h
    rcases Files.open?_error hopen with hsystem | ⟨rfl, -⟩
    · exact .inl (.fault (Fault.isExpected_of_isSystem hsystem))
    · exact .inl (.fault rfl)
  · simp only [ofFile, hopen, ofBytes] at h
    rcases hdecode : decodeWhole bytes with f | document
    · simp only [hdecode] at h
      obtain rfl := Except.error.inj h
      rw [decodeWhole] at hdecode
      split at hdecode
      · cases hdecode
      · obtain rfl := Except.error.inj hdecode
        exact .inl (.fault rfl)
    · simp only [hdecode] at h
      rcases hread : (readDocument depth document).2 with fault | config
      · rw [hread] at h
        obtain rfl := Except.error.inj h
        rcases readDocument_error hread with hexpected | ⟨rfl, hdeep⟩
        · exact .inl hexpected
        · exact .inr ⟨rfl, bytes, document, hopen, hdecode, hdeep⟩
      · rw [hread] at h
        cases h

theorem TooDeep.ofFile (h : TooDeep files depth path) :
    (ofFile files depth path).2 = .error (.document .tooDeep) := by
  obtain ⟨bytes, document, hopen, hdecode, hdeep⟩ := h
  simp only [Config.ofFile, hopen, ofBytes, hdecode, readDocument_of_tooDeep hdeep]
  rfl

/-- A file of too many opening brackets is nested too deeply. -/
theorem tooDeep_brackets {n : Nat} (h : depth < n)
    (hopen : files.open? path = .ok (List.replicate n 0x5B)) : TooDeep files depth path := by
  have hencode : Text.Utf8.encode (List.replicate n '[') = List.replicate n 0x5B := by
    rw [Text.Utf8.encode, List.flatMap_replicate]
    exact List.flatten_replicate_singleton
  have hreturn : '\r' ∉ List.replicate n '[' := by
    intro hmem
    exact absurd (List.eq_of_mem_replicate hmem) (by decide)
  have hdecode : decodeWhole (List.replicate n 0x5B) = .ok (List.replicate n '[') := by
    rw [← hencode, decodeWhole_encode, Text.unifyLineEnds_of_not_mem hreturn]
  exact ⟨_, _, hopen, hdecode, Json.read_brackets h⟩

end Config

end Unroll
