import Unroll.Error

/-!
# Gathered errors

Errors are gathered in a report, and the reports among them give it their members instead of
themselves.

* `Error.members`, `Error.fault?` — what an error gives to a report, or why it has no place there;
* `Report.gather_cases`, `Report.ofErrors_cases` — what gathering errors comes to;
* `Report.lists_members` — a report is the flat list of its members, and is shown as they are.
-/

namespace Unroll

/-! ### Members -/

/-- A diagnostic as an error. -/
def Diagnostic.error (d : Diagnostic) : Error := .rejection (.diagnostic d)

theorem Diagnostic.error_injective {d d' : Diagnostic} (h : d.error = d'.error) : d = d' :=
  Rejection.diagnostic.inj (Error.rejection.inj h)

/-- There is something to say about every problem of which more is known than that there is one. -/
theorem Diagnostic.exists_text {d : Diagnostic} (h : d.problem ≠ .unspecified) :
    ∃ text, d.text? = some text := by
  obtain ⟨position, problem⟩ := d
  cases problem with
  | unspecified => exact absurd rfl h
  | _ => exact ⟨_, rfl⟩

/-- Where there is something to say about every one of several diagnostics, all have texts. -/
theorem Diagnostic.exists_texts {ds : List Diagnostic}
    (h : ∀ d ∈ ds, ∃ text, d.text? = some text) :
    ∃ texts, ds.map Diagnostic.text? = texts.map some ∧ ds.mapM Diagnostic.text? = some texts := by
  induction ds with
  | nil => exact ⟨[], rfl, rfl⟩
  | cons d ds ih =>
    obtain ⟨⟨text, htext⟩, hrest⟩ := List.forall_mem_cons.1 h
    obtain ⟨texts, hmap, hmapM⟩ := ih hrest
    refine ⟨text :: texts, ?_, ?_⟩
    · rw [List.map_cons, htext, hmap, List.map_cons]
    · rw [List.mapM_cons, htext, hmapM]
      rfl

/-- The members of a report, as errors. -/
def Report.members (r : Report) : List Error := r.diagnostics.map Diagnostic.error

namespace Error

/-- What an error gives to a report that it is gathered in: a report its members, any other error
itself. -/
def members : Error → List Error
  | rejection r => r.diagnostics.map Diagnostic.error
  | e => [e]

/-- What is wrong with an error that is gathered in a report. -/
def fault? : Error → Option Report.Fault
  | rejection _ => none
  | e => some (.notRejection e)

/-- A place of a program is rejected, or a whole scope. -/
def IsRejection (e : Error) : Prop := ∃ r, e = rejection r

/-- One place of a program is rejected, and there is something to say about it. -/
def IsConcrete (e : Error) : Prop := ∃ d : Diagnostic, e = d.error ∧ d.problem ≠ .unspecified

theorem members_ne_nil (e : Error) : e.members ≠ [] := by
  cases e with
  | rejection r => exact fun h => r.diagnostics_ne_nil (List.map_eq_nil_iff.1 h)
  | _ => exact List.cons_ne_nil _ []

theorem fault?_eq_none_iff {e : Error} : e.fault? = none ↔ e.IsRejection := by
  cases e with
  | rejection r => exact ⟨fun _ => ⟨r, rfl⟩, fun _ => rfl⟩
  | _ => exact ⟨nofun, nofun⟩

/-- A report is a rejection, and so are its members. -/
theorem forall_members_isRejection_iff {e : Error} :
    (∀ m ∈ e.members, m.IsRejection) ↔ e.IsRejection := by
  cases e with
  | rejection r =>
    refine ⟨fun _ => ⟨r, rfl⟩, fun _ m hm => ?_⟩
    obtain ⟨d, -, rfl⟩ := List.mem_map.1 hm
    exact ⟨.diagnostic d, rfl⟩
  | _ => exact List.forall_mem_singleton

end Error

/-! ### One report -/

namespace Report

theorem members_injective {r r' : Report} (h : r.members = r'.members) : r = r' := by
  obtain ⟨ds, hds⟩ := r
  obtain ⟨ds', hds'⟩ := r'
  obtain rfl : ds = ds' := (List.map_inj_right fun _ _ => Diagnostic.error_injective).1 h
  rfl

/-- What is wrong with a group whose members have certain faults: the first of these, or that there
is no member. -/
def groupFault? : List (Option Fault) → Option Fault
  | [] => some .empty
  | faults => faults.findSome? id

theorem groupFault?_eq_none_iff {faults : List (Option Fault)} :
    groupFault? faults = none ↔ faults ≠ [] ∧ ∀ f ∈ faults, f = none := by
  cases faults with
  | nil => exact ⟨nofun, fun h => absurd rfl h.1⟩
  | cons f fs =>
    rw [groupFault?, List.findSome?_eq_none_iff]
    · exact ⟨fun h => ⟨List.cons_ne_nil f fs, h⟩, fun h => h.2⟩
    · exact List.cons_ne_nil f fs

/-- Gathering errors comes to the first that is no rejection, or to the members of them all. -/
theorem gather_cases (es : List Error) :
    (∃ f, (es.map Error.fault?).findSome? id = some f ∧ gather es = .error f) ∨
    (es.map Error.fault?).findSome? id = none ∧
      ∃ ds, gather es = .ok ds ∧ ds.map Diagnostic.error = es.flatMap Error.members := by
  induction es with
  | nil => exact .inr ⟨rfl, [], rfl, rfl⟩
  | cons e es ih =>
    cases e with
    | rejection r =>
      obtain ⟨f, hfault, hgather⟩ | ⟨hfault, ds, hgather, hds⟩ := ih
      · exact .inl ⟨f, hfault, by rw [gather, hgather]; rfl⟩
      · refine .inr ⟨hfault, r.diagnostics ++ ds, by rw [gather, hgather]; rfl, ?_⟩
        rw [List.map_append, hds, List.flatMap_cons]
        rfl
    | _ => exact .inl ⟨_, rfl, rfl⟩

/-- Errors come to what is wrong with them as a group, or to a report that has the members of them
all. -/
theorem ofErrors_cases (es : List Error) :
    (∃ f, groupFault? (es.map Error.fault?) = some f ∧ ofErrors es = .error f) ∨
    groupFault? (es.map Error.fault?) = none ∧
      ∃ r, ofErrors es = .ok r ∧ r.members = es.flatMap Error.members := by
  cases es with
  | nil => exact .inl ⟨.empty, rfl, rfl⟩
  | cons e es =>
    obtain ⟨f, hfault, hgather⟩ | ⟨hfault, ds, hgather, hds⟩ := gather_cases (e :: es)
    · exact .inl ⟨f, hfault, by rw [ofErrors, hgather]⟩
    · cases ds with
      | nil =>
        rw [List.flatMap_cons] at hds
        exact absurd (List.append_eq_nil_iff.1 hds.symm).1 e.members_ne_nil
      | cons d ds =>
        exact .inr ⟨hfault, ⟨d :: ds, List.cons_ne_nil d ds⟩, by rw [ofErrors, hgather], hds⟩

/-- Where there is something to say about every member, a report is shown by a line for each. -/
theorem exists_texts {r : Report} (h : ∀ d ∈ r.diagnostics, ∃ text, d.text? = some text) :
    ∃ texts, r.diagnostics.map Diagnostic.text? = texts.map some ∧
      r.text? = some ("\n".intercalate texts) := by
  obtain ⟨texts, hmap, hmapM⟩ := Diagnostic.exists_texts h
  exact ⟨texts, hmap, by rw [text?, hmapM, Option.map_some]⟩

/-- A report is the flat list of some errors. -/
structure Lists (r : Report) (errors : List Error) : Prop where
  members : r.members = errors
  /-- there are no reports among them -/
  flat : ∀ e ∈ errors, ∃ d : Diagnostic, e = d.error
  length : r.diagnostics.length = errors.length
  /-- each of them has a line -/
  text (h : ∀ e ∈ errors, e.IsConcrete) :
    ∃ texts, errors.map Error.text? = texts.map some ∧ r.text? = some ("\n".intercalate texts)

theorem lists_members (r : Report) : r.Lists r.members where
  members := rfl
  flat e he := by
    obtain ⟨d, -, rfl⟩ := List.mem_map.1 he
    exact ⟨d, rfl⟩
  length := (List.length_map _).symm
  text h := by
    have htext : ∀ d ∈ r.diagnostics, ∃ text, d.text? = some text := by
      intro d hd
      obtain ⟨d', hd', hproblem⟩ := h d.error (List.mem_map_of_mem hd)
      obtain rfl : d = d' := Diagnostic.error_injective hd'
      exact Diagnostic.exists_text hproblem
    obtain ⟨texts, hmap, hshown⟩ := exists_texts htext
    refine ⟨texts, ?_, hshown⟩
    rw [← hmap, members, List.map_map]
    rfl

end Report

end Unroll
