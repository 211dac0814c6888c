import Unroll.Proofs.Gathering

/-!
# Reports of reports

Reports are gathered in reports again, to any depth. A report removes no more than one level of
reports, and yet has none among its members, because each of those that it is made of had none.

* `ErrorTree.leaves` — the errors of a tree of reports, from left to right;
* `ErrorTree.firstFault?` — the first fault of a tree, its groups in the order in which they are
  built;
* `ErrorTree.built` — a tree comes to its first fault, or to an error whose members are its leaves;
* `ErrorTree.assemble_eq` — it comes to the same by steps that know nothing of the groups they are
  given, and remove one level each;
* `ErrorTree.build_flattens` — the report of a tree is the flat list of its leaves, however they are
  nested.
-/

namespace Unroll

namespace ErrorTree

/-! ### Trees -/

/-- A tree is an error, or a group of trees of which the statement holds already. -/
@[elab_as_elim, induction_eliminator]
theorem induct {motive : ErrorTree → Prop} (leaf : ∀ e, motive (leaf e))
    (node : ∀ ts, (∀ t ∈ ts, motive t) → motive (node ts)) : ∀ t, motive t
  | .leaf e => leaf e
  | .node ts => node ts fun t _ => induct leaf node t

mutual
/-- The errors of a tree, from left to right. A report that is a leaf was built before, and counts
as its members. -/
def leaves : ErrorTree → List Error
  | leaf e => e.members
  | node ts => leavesAll ts
/-- The errors of several trees, from left to right. -/
def leavesAll : List ErrorTree → List Error
  | [] => []
  | t :: ts => t.leaves ++ leavesAll ts
end

mutual
/-- The groups of a tree in the order in which they are built: those inside of a group before it,
from left to right. -/
def groups : ErrorTree → List (List ErrorTree)
  | leaf _ => []
  | node ts => groupsAll ts ++ [ts]
/-- The groups of several trees in the order in which they are built. -/
def groupsAll : List ErrorTree → List (List ErrorTree)
  | [] => []
  | t :: ts => t.groups ++ groupsAll ts
end

/-- What is wrong with a member of a group. A group is a member like a rejection. -/
def memberFault? : ErrorTree → Option Report.Fault
  | leaf e => e.fault?
  | node _ => none

/-- What is wrong with a group by itself. -/
def groupFault? (group : List ErrorTree) : Option Report.Fault :=
  Report.groupFault? (group.map memberFault?)

/-- The first fault of a tree, its groups in the order in which they are built. -/
def firstFault? (t : ErrorTree) : Option Report.Fault := t.groups.findSome? groupFault?

theorem leavesAll_eq (ts : List ErrorTree) : leavesAll ts = ts.flatMap leaves := by
  induction ts with
  | nil => rfl
  | cons t ts ih => rw [leavesAll, ih, List.flatMap_cons]

theorem groupsAll_eq (ts : List ErrorTree) : groupsAll ts = ts.flatMap groups := by
  induction ts with
  | nil => rfl
  | cons t ts ih => rw [groupsAll, ih, List.flatMap_cons]

/-- Several trees are built from left to right. -/
theorem findSome?_groupsAll (ts : List ErrorTree) :
    (groupsAll ts).findSome? groupFault? = ts.findSome? firstFault? := by
  induction ts with
  | nil => rfl
  | cons t ts ih =>
    rw [groupsAll, List.findSome?_append, ih, List.findSome?_cons, ← firstFault?]
    cases t.firstFault? <;> rfl

/-- The groups inside of a group are built before it. -/
theorem firstFault?_node (ts : List ErrorTree) :
    (node ts).firstFault? = (ts.findSome? firstFault?).or (groupFault? ts) := by
  rw [firstFault?, groups, List.findSome?_append, findSome?_groupsAll, List.findSome?_singleton]

theorem groupFault?_eq_none_iff {group : List ErrorTree} :
    groupFault? group = none ↔ group ≠ [] ∧ ∀ t ∈ group, t.memberFault? = none := by
  rw [groupFault?, Report.groupFault?_eq_none_iff, List.forall_mem_map, Ne, List.map_eq_nil_iff]

/-- A tree is without faults exactly if none of its groups is empty and all of its leaves are
rejections. -/
theorem faultless_iff (t : ErrorTree) :
    (t.firstFault? = none ∧ t.memberFault? = none) ↔
      (∀ group ∈ t.groups, group ≠ []) ∧ ∀ e ∈ t.leaves, e.IsRejection := by
  induction t with
  | leaf e =>
    rw [leaves, Error.forall_members_isRejection_iff, memberFault?, Error.fault?_eq_none_iff]
    exact and_congr_left fun _ => ⟨fun _ => List.forall_mem_nil _, fun _ => rfl⟩
  | node ts ih =>
    have hgroups : (∀ group ∈ (node ts).groups, group ≠ []) ↔
        (∀ t ∈ ts, ∀ group ∈ t.groups, group ≠ []) ∧ ts ≠ [] := by
      rw [groups, groupsAll_eq, List.forall_mem_append, List.forall_mem_flatMap,
        List.forall_mem_singleton]
    have hleaves : (∀ e ∈ (node ts).leaves, e.IsRejection) ↔
        ∀ t ∈ ts, ∀ e ∈ t.leaves, e.IsRejection := by
      rw [leaves, leavesAll_eq, List.forall_mem_flatMap]
    rw [firstFault?_node, Option.or_eq_none_iff, List.findSome?_eq_none_iff,
      groupFault?_eq_none_iff, hgroups, hleaves]
    constructor
    · rintro ⟨⟨hfirst, hne, hmember⟩, -⟩
      have hboth := fun t ht => (ih t ht).1 ⟨hfirst t ht, hmember t ht⟩
      exact ⟨⟨fun t ht => (hboth t ht).1, hne⟩, fun t ht => (hboth t ht).2⟩
    · rintro ⟨⟨hgroup, hne⟩, hleaf⟩
      have hboth := fun t ht => (ih t ht).2 ⟨hgroup t ht, hleaf t ht⟩
      exact ⟨⟨fun t ht => (hboth t ht).1, hne, fun t ht => (hboth t ht).2⟩, rfl⟩

/-! ### Building -/

/-- What a tree comes to: its first fault, or an error that has its leaves as members, and is itself
a member of groups as the tree is. -/
inductive Built (t : ErrorTree) : Except Report.Fault Error → Prop where
  | faulty {f : Report.Fault} (h : t.firstFault? = some f) : Built t (.error f)
  | sound {e : Error} (h : t.firstFault? = none) (hfault : e.fault? = t.memberFault?)
      (hmembers : e.members = t.leaves) : Built t (.ok e)

/-- What several trees come to. -/
inductive BuiltAll (ts : List ErrorTree) : Except Report.Fault (List Error) → Prop where
  | faulty {f : Report.Fault} (h : ts.findSome? firstFault? = some f) : BuiltAll ts (.error f)
  | sound {es : List Error} (h : ts.findSome? firstFault? = none)
      (hfaults : es.map Error.fault? = ts.map memberFault?)
      (hmembers : es.flatMap Error.members = leavesAll ts) : BuiltAll ts (.ok es)

theorem builtAll {ts : List ErrorTree} (h : ∀ t ∈ ts, t.Built t.build) :
    BuiltAll ts (buildAll ts) := by
  induction ts with
  | nil => exact .sound rfl rfl rfl
  | cons t ts ih =>
    obtain ⟨hhead, htail⟩ := List.forall_mem_cons.1 h
    have hrest := ih htail
    rw [buildAll]
    generalize t.build = result at hhead
    generalize buildAll ts = results at hrest
    cases hhead with
    | faulty hfirst =>
      apply BuiltAll.faulty
      rw [List.findSome?_cons, hfirst]
    | sound hfirst hfault hmembers =>
      cases hrest with
      | faulty hfirsts =>
        apply BuiltAll.faulty
        rw [List.findSome?_cons, hfirst, hfirsts]
      | sound hfirsts hfaults hmembersAll =>
        apply BuiltAll.sound
        · rw [List.findSome?_cons, hfirst, hfirsts]
        · rw [List.map_cons, List.map_cons, hfault, hfaults]
        · rw [List.flatMap_cons, hmembers, hmembersAll, leavesAll]

/-- A group takes the members of what it is made of in their place. -/
theorem BuiltAll.node {ts : List ErrorTree} (h : BuiltAll ts (buildAll ts)) :
    (node ts).Built (node ts).build := by
  rw [build]
  generalize buildAll ts = results at h
  cases h with
  | faulty hfirst =>
    apply Built.faulty
    rw [firstFault?_node, hfirst]
    rfl
  | @sound es hfirst hfaults hmembers =>
    -- nothing is wrong inside of the group, so that its own fault is the first
    have hgroup : (ErrorTree.node ts).firstFault? = Report.groupFault? (es.map Error.fault?) := by
      rw [firstFault?_node, hfirst, Option.none_or, groupFault?, hfaults]
    obtain ⟨f, hfault, hreport⟩ | ⟨hfault, r, hreport, hr⟩ := Report.ofErrors_cases es
    · simp only [hreport]
      exact .faulty (hgroup.trans hfault)
    · simp only [hreport]
      exact .sound (hgroup.trans hfault) rfl (hr.trans hmembers)

/-- A tree comes to its first fault, or to an error that has its leaves. -/
theorem built (t : ErrorTree) : t.Built t.build := by
  induction t with
  | leaf e => exact .sound rfl rfl rfl
  | node ts ih => exact (builtAll ih).node

theorem build_eq_error_iff {t : ErrorTree} {f : Report.Fault} :
    t.build = .error f ↔ t.firstFault? = some f := by
  have h := t.built
  generalize t.build = result at h
  cases h with
  | faulty hfirst => rw [hfirst, Except.error.injEq, Option.some.injEq]
  | sound hfirst =>
    rw [hfirst]
    exact ⟨nofun, nofun⟩

theorem exists_build_iff {t : ErrorTree} : (∃ e, t.build = .ok e) ↔ t.firstFault? = none := by
  have h := t.built
  generalize t.build = result at h
  cases h with
  | faulty hfirst =>
    rw [hfirst]
    exact ⟨nofun, nofun⟩
  | @sound e hfirst => exact ⟨fun _ => hfirst, fun _ => ⟨e, rfl⟩⟩

/-- A group that is built is a report, which lists the leaves of the group. -/
theorem exists_report {ts : List ErrorTree} {e : Error} (h : (node ts).build = .ok e) :
    ∃ r, e = .rejection (.report r) ∧ r.Lists (node ts).leaves := by
  have hbuilt := (node ts).built
  rw [h] at hbuilt
  obtain - | ⟨-, -, hmembers⟩ := hbuilt
  rw [build] at h
  split at h
  · cases h
  · rename_i es _
    cases hreport : Report.ofErrors es with
    | error f =>
      rw [hreport] at h
      cases h
    | ok r =>
      rw [hreport] at h
      obtain rfl := Except.ok.inj h
      have hleaves : r.members = (node ts).leaves := hmembers
      exact ⟨r, rfl, hleaves ▸ r.lists_members⟩

/-! ### One level at a time -/

/-- The tree of an error that was built. -/
def ofError : Error → ErrorTree
  | .rejection (.report r) => node (r.members.map leaf)
  | e => leaf e

/-- What a member gives to a group around it: a group its own members as they stand, which may be
groups again. -/
def content : ErrorTree → List ErrorTree
  | leaf e => e.members.map leaf
  | node ts => ts

/-- Makes one group, of whose members nothing is known. -/
def construct (ts : List ErrorTree) : Except Report.Fault ErrorTree :=
  match (ts.map memberFault?).findSome? id, ts.flatMap content with
  | some f, _ => .error f
  | none, [] => .error .empty
  | none, us => .ok (node us)

mutual
/-- Makes the groups of a tree, the inner before the outer, one level at a time. -/
def assemble : ErrorTree → Except Report.Fault ErrorTree
  | leaf e => .ok (ofError e)
  | node ts =>
    match assembleAll ts with
    | .error f => .error f
    | .ok us => construct us
/-- Makes the groups of several trees from left to right. -/
def assembleAll : List ErrorTree → Except Report.Fault (List ErrorTree)
  | [] => .ok []
  | t :: ts =>
    match assemble t with
    | .error f => .error f
    | .ok u => (assembleAll ts).map (u :: ·)
end

mutual
/-- How many groups of a tree lie inside of each other. -/
def height : ErrorTree → Nat
  | leaf _ => 0
  | node ts => heightAll ts + 1
/-- How many groups of several trees lie inside of each other. -/
def heightAll : List ErrorTree → Nat
  | [] => 0
  | t :: ts => max t.height (heightAll ts)
end

theorem memberFault?_ofError (e : Error) : (ofError e).memberFault? = e.fault? := by
  obtain (d | r) | _ | _ | _ | _ | _ := e <;> rfl

theorem content_ofError (e : Error) : (ofError e).content = e.members.map leaf := by
  obtain (d | r) | _ | _ | _ | _ | _ := e <;> rfl

/-- Of errors that were built, a report is made. -/
theorem construct_map_ofError (es : List Error) :
    construct (es.map ofError) =
      (Report.ofErrors es).map fun r => node (r.members.map leaf) := by
  have hfaults : (es.map ofError).map memberFault? = es.map Error.fault? := by
    rw [List.map_map]
    exact List.map_congr_left fun e _ => memberFault?_ofError e
  have hcontent : (es.map ofError).flatMap content = (es.flatMap Error.members).map leaf := by
    simp only [List.flatMap_map, List.map_flatMap, content_ofError]
  rw [construct, hfaults, hcontent, Report.ofErrors]
  obtain ⟨f, hfault, hgather⟩ | ⟨hfault, ds, hgather, hds⟩ := Report.gather_cases es
  · rw [hfault, hgather]
    rfl
  · rw [hfault, hgather, ← hds]
    cases ds <;> rfl

/-- One level at a time is enough, since the groups inside of a group are flat before it is made. -/
theorem assemble_eq (t : ErrorTree) : t.assemble = t.build.map ofError := by
  induction t with
  | leaf e => rfl
  | node ts ih =>
    have hall : assembleAll ts = (buildAll ts).map (·.map ofError) := by
      induction ts with
      | nil => rfl
      | cons t ts ihAll =>
        obtain ⟨hhead, htail⟩ := List.forall_mem_cons.1 ih
        rw [assembleAll, hhead, ihAll htail, buildAll]
        cases t.build with
        | error f => rfl
        | ok e => cases buildAll ts <;> rfl
    rw [assemble, hall, build]
    cases buildAll ts with
    | error f => rfl
    | ok es =>
      change construct (es.map ofError) =
        ((Report.ofErrors es).map fun r => .rejection (.report r)).map ofError
      rw [construct_map_ofError]
      cases Report.ofErrors es <;> rfl

theorem heightAll_append (ts us : List ErrorTree) :
    heightAll (ts ++ us) = max (heightAll ts) (heightAll us) := by
  induction ts with
  | nil => exact (Nat.zero_max _).symm
  | cons t ts ih => rw [List.cons_append, heightAll, heightAll, ih, Nat.max_assoc]

theorem heightAll_map_leaf (es : List Error) : heightAll (es.map leaf) = 0 := by
  induction es with
  | nil => rfl
  | cons e es ih => rw [List.map_cons, heightAll, height, ih, Nat.max_self]

theorem heightAll_flatMap_content (ts : List ErrorTree) :
    heightAll (ts.flatMap content) = heightAll ts - 1 := by
  induction ts with
  | nil => rfl
  | cons t ts ih =>
    have hcontent : heightAll t.content = t.height - 1 := by
      cases t with
      | leaf e => exact heightAll_map_leaf e.members
      | node us => rfl
    rw [List.flatMap_cons, heightAll_append, hcontent, ih, heightAll]
    omega

/-- Making a group removes one level of the groups among its members. -/
theorem height_construct {ts : List ErrorTree} {u : ErrorTree} (h : construct ts = .ok u) :
    u.height = max 1 ((node ts).height - 1) := by
  have hu : u = node (ts.flatMap content) := by
    rw [construct] at h
    split at h
    · cases h
    · cases h
    · exact (Except.ok.inj h).symm
  rw [hu, height, height, heightAll_flatMap_content]
  omega

/-! ### Trees are flattened -/

/-- A tree of reports is built if none of its groups is empty and all of its leaves are rejections,
and otherwise comes to the first fault in the order in which its groups are built. The report of the
tree is the flat list of the leaves from left to right, so that trees with the same leaves have the
same report, however the leaves are nested. The same comes of making one group after another where
nothing is known of the groups among the members, although this removes one level each time. -/
theorem build_flattens (ts : List ErrorTree) :
    ((∃ e, (node ts).build = .ok e) ↔
      (∀ group ∈ (node ts).groups, group ≠ []) ∧ ∀ e ∈ (node ts).leaves, e.IsRejection) ∧
    (∀ f, (node ts).build = .error f ↔ (node ts).firstFault? = some f) ∧
    (∀ e, (node ts).build = .ok e →
      ∃ r, e = .rejection (.report r) ∧ r.Lists (node ts).leaves) ∧
    (∀ us d e, (node ts).build = .ok d → (node us).build = .ok e →
      (d = e ↔ (node ts).leaves = (node us).leaves)) ∧
    (node ts).assemble = (node ts).build.map ofError ∧
    ∀ u, construct ts = .ok u → u.height = max 1 ((node ts).height - 1) := by
  refine ⟨?_, fun _ => build_eq_error_iff, fun _ => exists_report, ?_, assemble_eq _,
    fun _ => height_construct⟩
  · rw [exists_build_iff, ← faultless_iff]
    exact (and_iff_left rfl).symm
  · intro us d e hd he
    obtain ⟨r, rfl, hr⟩ := exists_report hd
    obtain ⟨r', rfl, hr'⟩ := exists_report he
    rw [← hr.members, ← hr'.members]
    constructor
    · intro heq
      rw [Rejection.report.inj (Error.rejection.inj heq)]
    · intro hmembers
      rw [Report.members_injective hmembers]

/-- Three errors, nested to the left and to the right, and a group in which an empty group is met
before the failure of an input that stands in front of it. -/
theorem build_flattens_nested :
    let a : Diagnostic := ⟨⟨1, 1⟩, .numberMissing "#"⟩
    let b : Diagnostic := ⟨⟨1, 2⟩, .emptyGroup "(" ")"⟩
    let c : Diagnostic := ⟨⟨2, 0⟩, .unclosed "(" ")"⟩
    let left := [node [node [leaf a.error], leaf b.error], leaf c.error]
    let right := [leaf a.error, node [leaf b.error, node [leaf c.error]]]
    let r : Report := ⟨[a, b, c], List.cons_ne_nil a [b, c]⟩
    (node left).build = .ok (.rejection (.report r)) ∧
      (node right).build = .ok (.rejection (.report r)) ∧
      (node left).leaves = (node right).leaves ∧ r.Lists (node left).leaves ∧
      r.text? = some ("[1:1]: number prefix '#' must be followed by number.\n" ++
        "[1:2]: group is empty ('()').\n[2:0]: expected ')'.") ∧
      (node [leaf (.input [] none), node []]).build = .error .empty := by
  intro a b c left right r
  have hleft : (node left).build = .ok (.rejection (.report r)) := rfl
  have hright : (node right).build = .ok (.rejection (.report r)) := rfl
  obtain ⟨-, -, hreport, hregroup, -, -⟩ := build_flattens left
  obtain ⟨r', hr, hlists⟩ := hreport _ hleft
  obtain rfl := Rejection.report.inj (Error.rejection.inj hr)
  obtain ⟨-, hfault, -⟩ := build_flattens [leaf (.input [] none), node []]
  exact ⟨hleft, hright, (hregroup right _ _ hleft hright).1 rfl, hlists, rfl,
    (hfault .empty).2 rfl⟩

end ErrorTree

end Unroll
