import Unroll.Files.Tree

/-!
# Files that are opened and written

A file that is opened for writing and then written is one change, at one place of the tree. The
way to that place is the same after it.

* `Files.find?_insert_self`, `Files.Writable.find?_insert_of_ne` — what is found after a node was
  put at a place, there and anywhere else;
* `Files.Writable` — a place at which a file may be written;
* `Files.create_ok` — what opening a file for writing does;
* `Files.open?_store` — the bytes found in a file are those of the text that was written to it;
* `Files.Rewritten` — all that has changed is the text of one file;
* `Files.open?_error`, `Files.create_error` — what keeps a file from being opened.
-/

namespace Unroll

theorem Path.names_p : Path.names "p" = ["p"] := by
  rw [Path.names, String.splitOn, if_neg (by decide), String.splitOnAux, if_neg (by decide),
    if_neg (by decide), String.splitOnAux, if_pos (by decide)]
  rfl

namespace Files

/-! ### Nodes -/

section

variable {files : Files} {place p q : Place}

/-- Nodes put in place of others are listed instead of these. -/
theorem lookup_replace_self {entries : List (Place × Node)}
    (h : entries.any (·.1 == place) = true) (node : Node) :
    (entries.map fun entry => if entry.1 == place then (place, node) else entry).lookup place =
      some node := by
  induction entries with
  | nil => cases h
  | cons entry entries ih =>
    rw [List.map_cons, List.lookup_cons]
    by_cases hentry : entry.1 = place
    · rw [if_pos (beq_iff_eq.2 hentry), BEq.rfl]
    · have hrest : entries.any (·.1 == place) = true := by simpa [hentry] using h
      rw [if_neg (mt beq_iff_eq.1 hentry), beq_false_of_ne (Ne.symm hentry), ih hrest]

theorem lookup_replace_of_ne (h : p ≠ place) (entries : List (Place × Node)) (node : Node) :
    (entries.map fun entry => if entry.1 == place then (place, node) else entry).lookup p =
      entries.lookup p := by
  induction entries with
  | nil => rfl
  | cons entry entries ih =>
    rw [List.map_cons, List.lookup_cons, List.lookup_cons, ih]
    by_cases hentry : entry.1 = place
    · rw [if_pos (beq_iff_eq.2 hentry), hentry, beq_false_of_ne h]
    · rw [if_neg (mt beq_iff_eq.1 hentry)]

/-- Putting a node at a place changes what is listed there, and nothing else. -/
theorem lookup_insert (files : Files) (place p : Place) (node : Node) :
    (files.insert place node).entries.lookup p =
      if p = place then some node else files.entries.lookup p := by
  by_cases hany : files.entries.any (·.1 == place) = true
  · rw [insert, if_pos hany]
    by_cases hp : p = place
    · rw [if_pos hp, hp, lookup_replace_self hany]
    · rw [if_neg hp, lookup_replace_of_ne hp]
  · rw [insert, if_neg hany, List.lookup_append, List.lookup_cons, List.lookup_nil]
    by_cases hp : p = place
    · have hnone : files.entries.lookup place = none := by
        rw [List.lookup_eq_none_iff]
        intro entry hentry
        rw [bne_iff_ne]
        rintro rfl
        exact hany (List.any_eq_true.2 ⟨entry, hentry, BEq.rfl⟩)
      rw [if_pos hp, hp, hnone, BEq.rfl]
      rfl
    · rw [if_neg hp, beq_false_of_ne hp, Option.or_none]

/-- What stands inside of a directory stands there still, with what was put there. -/
theorem any_insert (files : Files) (place p : Place) (node : Node) :
    (files.insert place node).entries.any (fun entry => p.isPrefixOf entry.1) =
      (files.entries.any (fun entry => p.isPrefixOf entry.1) || p.isPrefixOf place) := by
  by_cases hany : files.entries.any (·.1 == place) = true
  · have hkeys : ∀ entry : Place × Node, p.isPrefixOf
        (if entry.1 == place then (place, node) else entry).1 = p.isPrefixOf entry.1 := by
      intro entry
      by_cases hentry : entry.1 = place
      · rw [if_pos (beq_iff_eq.2 hentry), hentry]
      · rw [if_neg (mt beq_iff_eq.1 hentry)]
    have hplace : p.isPrefixOf place = true →
        files.entries.any (fun entry => p.isPrefixOf entry.1) = true := by
      intro hp
      obtain ⟨entry, hmem, hentry⟩ := List.any_eq_true.1 hany
      exact List.any_eq_true.2 ⟨entry, hmem, by rw [beq_iff_eq.1 hentry, hp]⟩
    have hsame : files.entries.any
        ((fun entry => p.isPrefixOf entry.1) ∘ fun entry =>
          if entry.1 == place then (place, node) else entry) =
        files.entries.any (fun entry => p.isPrefixOf entry.1) := List.any_congr rfl hkeys
    rw [insert, if_pos hany, List.any_map, hsame]
    rcases hp : p.isPrefixOf place with _ | _
    · rw [Bool.or_false]
    · rw [hplace hp, Bool.true_or]
  · rw [insert, if_neg hany, List.any_append, List.any_cons, List.any_nil, Bool.or_false]

/-! ### Places for files -/

/-- All directories on the way to a place are there. -/
def Reaches (files : Files) (place : Place) : Prop :=
  ∀ p, p <+: place → p ≠ place → files.find? p = some .directory

/-- There is no directory at a place, but all those on the way to it are there. -/
structure Writable (files : Files) (place : Place) : Prop where
  free : files.find? place ≠ some .directory
  directories : files.Reaches place

theorem find?_of_isFixed (h : p.isFixed = true) (files : Files) :
    files.find? p = some .directory := by
  rw [find?, if_pos h]

theorem Writable.not_isFixed (h : files.Writable place) : ¬ place.isFixed = true :=
  fun hfixed => h.free (find?_of_isFixed hfixed files)

theorem Writable.find?_insert_self (h : files.Writable place) (node : Node) :
    (files.insert place node).find? place = some node := by
  rw [find?, if_neg h.not_isFixed, lookup_insert, if_pos rfl]

/-- A new file makes no directories: those on the way to it were there before. -/
theorem Writable.find?_insert_of_ne (h : files.Writable place) (hp : p ≠ place) (node : Node) :
    (files.insert place node).find? p = files.find? p := by
  by_cases hfixed : p.isFixed = true
  · rw [find?_of_isFixed hfixed, find?_of_isFixed hfixed]
  rw [find?, find?, if_neg hfixed, if_neg hfixed, lookup_insert, if_neg hp, any_insert]
  rcases hlookup : files.entries.lookup p with _ | found
  · rcases hprefix : p.isPrefixOf place with _ | _
    · rw [Bool.or_false]
    · -- the directory at `p` has something inside already
      have hdirectory := h.directories p (List.isPrefixOf_iff_prefix.1 hprefix) hp
      rw [find?, if_neg hfixed, hlookup] at hdirectory
      rw [Bool.or_true, hdirectory]
      rfl
  · rfl

/-- A place where a file was put is one where another may be put. -/
theorem Writable.insert (h : files.Writable place) (bytes : List UInt8) :
    (files.insert place (.file bytes)).Writable place where
  free := by
    rw [h.find?_insert_self]
    simp
  directories p hprefix hp := by
    rw [h.find?_insert_of_ne hp]
    exact h.directories p hprefix hp

/-! ### Ways -/

/-- A name leads nowhere, one name further, or one back. -/
theorem enter_cases (place : Place) (name : String) :
    place.enter name = place ∨ (∃ further, place.enter name = place ++ [further]) ∨
      place.enter name = place.dropLast := by
  rw [Place.enter]
  split
  · exact .inl rfl
  split
  · exact .inr (.inl ⟨_, rfl⟩)
  split
  · exact .inl rfl
  split
  · exact .inr (.inl ⟨_, rfl⟩)
  · exact .inr (.inr rfl)

theorem Reaches.enter (h : files.Reaches place) (hplace : files.find? place = some .directory)
    (name : String) : files.Reaches (place.enter name) := by
  have hall : ∀ p, p <+: place → files.find? p = some .directory := by
    intro p hp
    by_cases heq : p = place
    · rwa [heq]
    · exact h p hp heq
  intro p hp hne
  rcases enter_cases place name with hsame | ⟨further, hdown⟩ | hback
  · rw [hsame] at hp
    exact hall p hp
  · rw [hdown] at hp hne
    exact hall p ((List.prefix_concat_iff.1 hp).resolve_left hne)
  · rw [hback] at hp
    exact hall p (hp.trans (List.dropLast_prefix place))

/-- Every name of a way is looked up in a directory, so that all directories on it are there. -/
theorem Reaches.walk {path : String} {names : List String} (h : files.Reaches place)
    (hwalk : files.walk path place names = .ok q) : files.Reaches q := by
  induction names generalizing place with
  | nil =>
    obtain rfl := Except.ok.inj hwalk
    exact h
  | cons name names ih =>
    rw [Files.walk] at hwalk
    split at hwalk
    · rename_i hplace
      split at hwalk
      · cases hwalk
      · exact ih (h.enter hplace name) hwalk
    · cases hwalk
    · cases hwalk

theorem reaches_locate {path : String} (h : files.locate path = .ok place) :
    files.Reaches place := by
  rw [locate, follow] at h
  split at h
  · cases h
  refine Reaches.walk ?_ h
  intro p hp hne
  split at hp
  · rename_i hroot
    rw [if_pos hroot] at hne
    exact absurd (List.prefix_nil.1 hp) hne
  · rename_i hroot
    rw [if_neg hroot] at hne
    obtain rfl : p = [] := by
      rcases List.prefix_concat_iff.1 (List.nil_append [Place.root] ▸ hp) with heq | hnil
      · exact absurd heq hne
      · exact List.prefix_nil.1 hnil
    exact find?_of_isFixed rfl files

/-- A new file is in no one's way: a walk does not go through it. -/
theorem Writable.walk_insert (h : files.Writable q) (node : Node) {path : String}
    {names : List String} {after : Place} (hwalk : files.walk path place names = .ok after) :
    (files.insert q node).walk path place names = .ok after := by
  induction names generalizing place with
  | nil => exact hwalk
  | cons name names ih =>
    rw [Files.walk] at hwalk
    split at hwalk
    · rename_i hplace
      have hne : place ≠ q := by
        rintro rfl
        exact h.free hplace
      split at hwalk
      · cases hwalk
      · rename_i hname
        rw [Files.walk, h.find?_insert_of_ne hne, hplace]
        simp only [if_neg hname]
        exact ih hwalk
    · cases hwalk
    · cases hwalk

theorem Writable.locate_insert (h : files.Writable q) (node : Node) {path : String}
    (hlocate : files.locate path = .ok place) :
    (files.insert q node).locate path = .ok place := by
  rw [locate, follow] at hlocate ⊢
  split at hlocate
  · cases hlocate
  · exact h.walk_insert node hlocate

/-! ### Opening and storing -/

/-- A file that is opened for writing is emptied, or made where there was none. -/
theorem create_ok {path : String} {files' : Files} (h : files.create path = .ok (place, files')) :
    files.locate path = .ok place ∧ files.Writable place ∧
      files' = files.insert place (.file []) := by
  rw [create] at h
  split at h
  · split at h <;> cases h
  split at h
  · cases h
  rename_i hlocate
  split at h
  · cases h
  · rename_i hfree
    obtain ⟨rfl, rfl⟩ := Prod.mk.inj (Except.ok.inj h)
    exact ⟨hlocate, ⟨hfree, reaches_locate hlocate⟩, rfl⟩

/-- What was written to a file is what it is found to hold. -/
theorem open?_store {path : String} {files' : Files}
    (h : files.create path = .ok (place, files')) (text : String) :
    (files'.store place text).open? path = .ok (Text.Utf8.encode text.toList) := by
  obtain ⟨hlocate, hwritable, rfl⟩ := create_ok h
  have hemptied := hwritable.insert []
  have hstored := hemptied.locate_insert (.file (Text.Utf8.encode text.toList))
    (hwritable.locate_insert (.file []) hlocate)
  rw [store, open?, hstored]
  simp only [hemptied.find?_insert_self]

/-- Nothing is changed at any other place. -/
theorem find?_store_of_ne {path : String} {files' : Files}
    (h : files.create path = .ok (place, files')) (hp : p ≠ place) (text : String) :
    (files'.store place text).find? p = files.find? p := by
  obtain ⟨-, hwritable, rfl⟩ := create_ok h
  rw [store, (hwritable.insert []).find?_insert_of_ne hp, hwritable.find?_insert_of_ne hp]

/-- Between two states of the files, the one at `path` has come to hold a text, and nothing else was
changed. -/
structure Rewritten (files : Files) (path text : String) (after : Files) : Prop where
  holds : after.open? path = .ok (Text.Utf8.encode text.toList)
  others : ∃ place, files.locate path = .ok place ∧
    ∀ p, p ≠ place → after.find? p = files.find? p

theorem rewritten_store {path : String} {files' : Files}
    (h : files.create path = .ok (place, files')) (text : String) :
    files.Rewritten path text (files'.store place text) :=
  ⟨open?_store h text, place, (create_ok h).1, fun _ hp => find?_store_of_ne h hp text⟩

end

/-! ### What keeps a file from being opened -/

section

variable {files : Files} {path : String} {f : Fault}

theorem walk_error {place : Place} {names : List String}
    (h : files.walk path place names = .error f) : f.isSystem = true := by
  induction names generalizing place with
  | nil => cases h
  | cons name names ih =>
    rw [walk] at h
    split at h
    · split at h
      · obtain rfl := Except.error.inj h
        rfl
      · exact ih h
    · obtain rfl := Except.error.inj h
      rfl
    · obtain rfl := Except.error.inj h
      rfl

/-- It is the system that does not find a path, unless there is the character numbered zero in
it. -/
theorem follow_error {names : List String} (h : files.follow path names = .error f) :
    f.isSystem = true ∨ f = .nulInPath ∧ '\x00' ∈ path.toList := by
  rw [follow] at h
  split at h
  · rename_i hcheck
    obtain rfl := Except.error.inj h
    rw [checkPath] at hcheck
    split at hcheck
    · rename_i hnul
      obtain rfl := Except.error.inj hcheck
      exact .inr ⟨rfl, List.contains_iff_mem.1 hnul⟩
    split at hcheck
    · obtain rfl := Except.error.inj hcheck
      exact .inl rfl
    split at hcheck
    · obtain rfl := Except.error.inj hcheck
      exact .inl rfl
    · cases hcheck
  · exact .inl (walk_error h)

theorem follow_of_nul (h : '\x00' ∈ path.toList) (names : List String) :
    files.follow path names = .error .nulInPath := by
  have hcheck : checkPath path = .error .nulInPath := by
    rw [checkPath, if_pos (List.contains_iff_mem.2 h)]
  simp only [follow, hcheck]

theorem open?_error (h : files.open? path = .error f) :
    f.isSystem = true ∨ f = .nulInPath ∧ '\x00' ∈ path.toList := by
  rw [open?] at h
  split at h
  · rename_i hlocate
    obtain rfl := Except.error.inj h
    exact follow_error hlocate
  · split at h
    · cases h
    · obtain rfl := Except.error.inj h
      exact .inl rfl
    · obtain rfl := Except.error.inj h
      exact .inl rfl

theorem open?_of_nul (h : '\x00' ∈ path.toList) :
    files.open? path = .error .nulInPath := by
  simp only [open?, locate, follow_of_nul h]

theorem create_error (h : files.create path = .error f) :
    f.isSystem = true ∨ f = .nulInPath ∧ '\x00' ∈ path.toList := by
  rw [create] at h
  split at h
  · split at h
    · rename_i hfollow
      obtain rfl := Except.error.inj h
      exact follow_error hfollow
    · obtain rfl := Except.error.inj h
      exact .inl rfl
  · split at h
    · rename_i hlocate
      obtain rfl := Except.error.inj h
      exact follow_error hlocate
    · split at h
      · obtain rfl := Except.error.inj h
        exact .inl rfl
      · cases h

theorem create_of_nul (h : '\x00' ∈ path.toList) :
    files.create path = .error .nulInPath := by
  rw [create]
  split
  · simp only [follow_of_nul h]
  · simp only [locate, follow_of_nul h]

end

end Files

end Unroll
