import Unroll.Lexer.Program
import Unroll.Proofs.Characters

/-!
# Reading as a relation

What the readers of the lexer do at a cursor, without their step counts and without the sources
behind them: every case of the readers is one rule.

* `Reads` — one item, or the rest of a group, is read from a cursor to another, by readers of which
  a limited number may be at work inside of each other;
* `ReadsAll` — a whole program is read;
* `Reads.length_le` — what reading consumes;
* `Lexer.follows`, `Lexer.At.readAll` — the readers of the lexer follow the rules.
-/

namespace Unroll

/-! ### Outcomes and scopes -/

/-- What becomes of reading an item. -/
inductive Outcome where
  | token (t : Token)
  | groupEnd
  | inputEnd
  | rejected (r : Rejection)
  | tooDeep

namespace Outcome

/-- A token, or its rejection. -/
def of : Except Rejection Token → Outcome
  | .ok t => token t
  | .error r => rejected r

theorem of_ne_inputEnd (r : Except Rejection Token) : of r ≠ inputEnd := by
  cases r <;> simp [of]

theorem of_ne_tooDeep (r : Except Rejection Token) : of r ≠ tooDeep := by
  cases r <;> simp [of]

/-- The result with which a reader of items tells an outcome. -/
def result : Outcome → Except Lexer.Failure Lexer.Item
  | token t => .ok (.token t)
  | groupEnd => .ok .groupEnd
  | inputEnd => .ok .inputEnd
  | rejected r => .error (.rejected r)
  | tooDeep => .error .tooDeep

theorem result_of (r : Except Rejection Token) :
    (of r).result = (r.mapError Lexer.Failure.rejected).map Lexer.Item.token := by
  cases r <;> rfl

end Outcome

/-- The tokens of a group or a program, and the diagnostics found in it, in order. -/
structure Scope where
  tokens : List Token
  found : List Diagnostic

namespace Scope

/-- Nothing was read yet. -/
def empty : Scope := ⟨[], []⟩

/-- One more token. -/
def add (scope : Scope) (t : Token) : Scope := { scope with tokens := scope.tokens ++ [t] }

/-- More diagnostics. -/
def note (scope : Scope) (ds : List Diagnostic) : Scope :=
  { scope with found := scope.found ++ ds }

/-- What a group comes to that ends at `position`. -/
def group (config : Config) (position : Position) (scope : Scope) : Except Rejection Token :=
  match Report.ofList? scope.found with
  | some r => .error (.report r)
  | none =>
    if scope.tokens.isEmpty then .error (.diagnostic ⟨position, Lexer.emptyGroup config⟩)
    else .ok (.group scope.tokens)

/-- What a program comes to. -/
def program (scope : Scope) : Except Lexer.Failure (List Token) :=
  match Report.ofList? scope.found with
  | some r => .error (.rejected (.report r))
  | none => .ok scope.tokens

end Scope

/-! ### The rules -/

/-- A character is not bound, so that it has the role, or none, that the configuration gives it. -/
structure Acts (config : Config) (m : MacroTable) (c : Char) (role : Option Role) : Prop where
  unbound : m.lookup c = none
  role : config.roleOf c = role

/-- What is read: an item, or the rest of a group. -/
inductive Reader where
  | item
  | group (scope : Scope)

open Lexer in
/-- Reading from one cursor to another. The number is that of the readers that may be at work
inside of each other: an item takes one of them, the group or the definition in it another. -/
inductive Reads (config : Config) : Reader → Nat → Cursor → Outcome → Cursor → Prop where
  | tooDeep {reader c} : Reads config reader 0 c .tooDeep c
  | inputEnd {d p m} : Reads config .item (d + 1) ⟨[], p, m⟩ .inputEnd ⟨[], p, m⟩
  | bound {d c s p m t} (h : m.lookup c = some t) :
      Reads config .item (d + 1) ⟨c :: s, p, m⟩ (.token t) ⟨s, p.advance c, m⟩
  | skip {d c s p m o after} (h : Acts config m c none)
      (next : Reads config .item (d + 1) ⟨s, p.advance c, m⟩ o after) :
      Reads config .item (d + 1) ⟨c :: s, p, m⟩ o after
  | operator {d c s p m} (h : Acts config m c (some .operator)) :
      Reads config .item (d + 1) ⟨c :: s, p, m⟩ (.token (.operator (String.singleton c)))
        ⟨s, p.advance c, m⟩
  | groupEnd {d c s p m} (h : Acts config m c (some .groupEnd)) :
      Reads config .item (d + 1) ⟨c :: s, p, m⟩ .groupEnd ⟨s, p.advance c, m⟩
  | escape {d c e s p m o after} (h : Acts config m c (some .escapePrefix))
      (next : Reads config .item (d + 1) ⟨s, (p.advance c).advance e, m⟩ o after) :
      Reads config .item (d + 1) ⟨c :: e :: s, p, m⟩ o after
  | escapeNothing {d c p m} (h : Acts config m c (some .escapePrefix)) :
      Reads config .item (d + 1) ⟨[c], p, m⟩ .inputEnd ⟨[], p.advance c, m⟩
  | number {d c s p m o} (h : Acts config m c (some .numberPrefix))
      (ho : .of (numeral config (p.advance c) (s.takeWhile isDigit)) = o) :
      Reads config .item (d + 1) ⟨c :: s, p, m⟩ o
        ⟨s.dropWhile isDigit, (p.advance c).advanceBy (s.takeWhile isDigit), m⟩
  | definitionTooDeep {c s p m} (h : Acts config m c (some .macroPrefix)) :
      Reads config .item 1 ⟨c :: s, p, m⟩ .tooDeep ⟨s, p.advance c, m⟩
  | symbolMissing {d c p m} (h : Acts config m c (some .macroPrefix)) :
      Reads config .item (d + 2) ⟨[c], p, m⟩
        (.rejected (.diagnostic ⟨p.advance c, macroMissing config⟩)) ⟨[], p.advance c, m⟩
  | bodyMissing {d c a s p m after} (h : Acts config m c (some .macroPrefix))
      (body : Reads config .item d ⟨s, (p.advance c).advance a, m⟩ .inputEnd after) :
      Reads config .item (d + 2) ⟨c :: a :: s, p, m⟩
        (.rejected (.diagnostic ⟨after.position, macroMissing config⟩)) after
  | bodyAbandoned {d c a s p m after} (h : Acts config m c (some .macroPrefix))
      (body : Reads config .item d ⟨s, (p.advance c).advance a, m⟩ .groupEnd after) :
      Reads config .item (d + 2) ⟨c :: a :: s, p, m⟩ .groupEnd after
  | bodyRejected {d c a s p m r after} (h : Acts config m c (some .macroPrefix))
      (body : Reads config .item d ⟨s, (p.advance c).advance a, m⟩ (.rejected r) after) :
      Reads config .item (d + 2) ⟨c :: a :: s, p, m⟩ (.rejected r) after
  | bodyTooDeep {d c a s p m after} (h : Acts config m c (some .macroPrefix))
      (body : Reads config .item d ⟨s, (p.advance c).advance a, m⟩ .tooDeep after) :
      Reads config .item (d + 2) ⟨c :: a :: s, p, m⟩ .tooDeep after
  | definition {d c a s p m t s₁ p₁ m₁ o after} (h : Acts config m c (some .macroPrefix))
      (body : Reads config .item d ⟨s, (p.advance c).advance a, m⟩ (.token t) ⟨s₁, p₁, m₁⟩)
      (next : Reads config .item (d + 2) ⟨s₁, p₁, m₁.bind a t⟩ o after) :
      Reads config .item (d + 2) ⟨c :: a :: s, p, m⟩ o after
  | group {d c s p m o after} (h : Acts config m c (some .groupStart))
      (inner : Reads config (.group .empty) d ⟨s, p.advance c, m⟩ o after) :
      Reads config .item (d + 1) ⟨c :: s, p, m⟩ o after
  | groupToken {d scope c t c₁ o after} (item : Reads config .item d c (.token t) c₁)
      (next : Reads config (.group (scope.add t)) (d + 1) c₁ o after) :
      Reads config (.group scope) (d + 1) c o after
  | groupRejected {d scope c r c₁ o after} (item : Reads config .item d c (.rejected r) c₁)
      (next : Reads config (.group (scope.note r.diagnostics)) (d + 1) c₁ o after) :
      Reads config (.group scope) (d + 1) c o after
  | groupTooDeep {d scope c after} (item : Reads config .item d c .tooDeep after) :
      Reads config (.group scope) (d + 1) c .tooDeep after
  | groupClosed {d scope c o after} (item : Reads config .item d c .groupEnd after)
      (ho : .of (scope.group config after.position) = o) :
      Reads config (.group scope) (d + 1) c o after
  | groupUnclosed {d scope c o after} (item : Reads config .item d c .inputEnd after)
      (ho : .of ((scope.note [⟨after.position, unclosed config⟩]).group config after.position)
        = o) :
      Reads config (.group scope) (d + 1) c o after

open Lexer in
/-- Reading a whole program, of which the scope was read before. -/
inductive ReadsAll (config : Config) (depth : Nat) :
    Scope → Cursor → Except Lexer.Failure (List Token) → Cursor → Prop where
  | token {scope c t c₁ result after} (item : Reads config .item depth c (.token t) c₁)
      (next : ReadsAll config depth (scope.add t) c₁ result after) :
      ReadsAll config depth scope c result after
  | rejected {scope c r c₁ result after} (item : Reads config .item depth c (.rejected r) c₁)
      (next : ReadsAll config depth (scope.note r.diagnostics) c₁ result after) :
      ReadsAll config depth scope c result after
  | unopened {scope c c₁ result after} (item : Reads config .item depth c .groupEnd c₁)
      (next : ReadsAll config depth (scope.note [⟨c₁.position, unopened config⟩]) c₁ result
        after) :
      ReadsAll config depth scope c result after
  | tooDeep {scope c after} (item : Reads config .item depth c .tooDeep after) :
      ReadsAll config depth scope c (.error .tooDeep) after
  | inputEnd {scope c after} (item : Reads config .item depth c .inputEnd after) :
      ReadsAll config depth scope c scope.program after

/-! ### What reading consumes -/

/-- The least number of characters that are consumed on the way to an outcome. -/
def Reader.least : Reader → Outcome → Nat
  | .item, .token _ | .item, .groupEnd | .item, .rejected _ => 1
  | _, _ => 0

namespace Reads

variable {config : Config} {reader : Reader} {d : Nat} {c after : Cursor} {o : Outcome}

/-- Reading takes characters from the front of what is left, and an item that is no end of the
input takes at least one. -/
theorem length_le (h : Reads config reader d c o after) :
    after.rest.length + reader.least o ≤ c.rest.length := by
  induction h with
  | @tooDeep reader _ => cases reader <;> simp [Reader.least]
  | inputEnd | escapeNothing => simp [Reader.least]
  | bound | operator | groupEnd | symbolMissing | definitionTooDeep => simp [Reader.least]
  | @number _ _ s _ _ _ _ ho =>
    have hdrop := (List.dropWhile_suffix (l := s) Lexer.isDigit).length_le
    subst ho
    cases Lexer.numeral .. <;> simp only [Outcome.of, Reader.least, List.length_cons] <;> omega
  | bodyMissing _ _ ih | bodyAbandoned _ _ ih | bodyRejected _ _ ih | bodyTooDeep _ _ ih =>
    simp only [Reader.least, List.length_cons] at ih ⊢
    omega
  | skip _ _ ih | escape _ _ ih =>
    simp only [List.length_cons] at ih ⊢
    omega
  | definition _ _ _ ihBody ihNext =>
    simp only [Reader.least, List.length_cons] at ihBody ihNext ⊢
    omega
  | group _ _ ih =>
    simp only [Reader.least, List.length_cons] at ih ⊢
    split <;> omega
  | groupToken _ _ ihItem ihNext | groupRejected _ _ ihItem ihNext =>
    simp only [Reader.least] at ihItem ihNext ⊢
    omega
  | groupTooDeep _ ih | groupClosed _ _ ih | groupUnclosed _ _ ih =>
    simp only [Reader.least] at ih ⊢
    omega

/-- Only an item comes to the end of the input, and then nothing is left. -/
theorem of_inputEnd (h : Reads config reader d c o after) (ho : o = .inputEnd) :
    reader = .item ∧ after.rest = [] := by
  induction h with
  | inputEnd | escapeNothing => exact ⟨rfl, rfl⟩
  | skip _ _ ih | escape _ _ ih | definition _ _ _ _ ih => exact ih ho
  | group _ _ ih => cases (ih ho).1
  | groupToken _ _ _ ih | groupRejected _ _ _ ih => cases (ih ho).1
  | number _ hof | groupClosed _ hof | groupUnclosed _ hof =>
    exact absurd (hof.trans ho) (Outcome.of_ne_inputEnd _)
  | _ => cases ho

theorem rest_eq_nil (h : Reads config .item d c .inputEnd after) : after.rest = [] :=
  (h.of_inputEnd rfl).2

/-- Where no reader may be at work nothing is read. -/
theorem depth_pos (h : Reads config reader d c o after) (ho : o ≠ .tooDeep) : 0 < d := by
  cases h with
  | tooDeep => exact absurd rfl ho
  | _ => exact Nat.succ_pos _

end Reads

/-! ### The readers follow the rules -/

namespace Lexer

theorem At.bindMacro {l : Lexer} {s : List Char} {p : Position} {m : MacroTable}
    (h : l.At ⟨s, p, m⟩) (symbol : Char) (body : Token) :
    (l.bindMacro symbol body).At ⟨s, p, m.bind symbol body⟩ :=
  ⟨h.rest, h.position, congrArg (·.bind symbol body) h.macros, h.quiet⟩

theorem finishGroup_eq (config : Config) (ts : List Token) (ds : List Diagnostic) (l : Lexer) :
    finishGroup config ts ds l =
      (Scope.group config l.position ⟨ts.reverse, ds.reverse⟩).mapError .rejected := by
  simp only [finishGroup, Scope.group, List.isEmpty_reverse]
  cases Report.ofList? ds.reverse with
  | some r => rfl
  | none => cases ts <;> rfl

/-- With so many steps, the reader of items follows the rules. -/
def ItemFollows (config : Config) (steps : Nat) : Prop :=
  ∀ (depth : Nat) (l : Lexer) (c : Cursor), l.At c → 2 * c.rest.length + 1 ≤ steps →
    ∃ o after l', itemIn config steps depth l = (o.result, l') ∧ l'.At after ∧
      Reads config .item depth c o after

/-- With so many steps, the reader of groups follows the rules. -/
def GroupFollows (config : Config) (steps : Nat) : Prop :=
  ∀ (depth : Nat) (l : Lexer) (c : Cursor) (ts : List Token) (ds : List Diagnostic),
    l.At c → 2 * c.rest.length + 2 ≤ steps →
    ∃ result o after l', groupIn config steps depth ts ds l = (result, l') ∧
      result.map .token = o.result ∧ l'.At after ∧
      Reads config (.group ⟨ts.reverse, ds.reverse⟩) depth c o after

variable {config : Config} {steps d : Nat} {l : Lexer} {c : Char} {s : List Char} {p : Position}
  {m : MacroTable}

/-- After a macro prefix that acts as such, the rules are followed if they are in the body and
after the definition. -/
theorem At.definition (ih : ∀ k ≤ steps, ItemFollows config k)
    (h : l.At ⟨c :: s, p, m⟩) (hacts : Acts config m c (some .macroPrefix))
    (hsteps : 2 * (s.length + 1) ≤ steps) :
    ∃ o after l', itemIn config (steps + 1) (d + 1) l = (o.result, l') ∧ l'.At after ∧
      Reads config .item (d + 1) ⟨c :: s, p, m⟩ o after := by
  obtain ⟨l₁, hnext₁, h₁⟩ := h.next_cons
  have hunbound : l₁.macros.lookup c = none := by rw [h₁.macros, hacts.unbound]
  obtain ⟨steps, rfl⟩ : ∃ k, steps = k + 1 := ⟨steps - 1, by omega⟩
  cases d with
  | zero =>
    refine ⟨.tooDeep, _, l₁, ?_, h₁, .definitionTooDeep hacts⟩
    simp only [itemIn, hnext₁, hunbound, hacts.role, definitionIn, Outcome.result]
  | succ d =>
    cases s with
    | nil =>
      obtain ⟨l₂, hnext₂, h₂⟩ := h₁.next_nil
      have hposition : l₂.position = p.advance c := h₂.position
      refine ⟨_, _, l₂, ?_, h₂, .symbolMissing hacts⟩
      simp only [itemIn, hnext₁, hunbound, hacts.role, definitionIn, hnext₂, reject, rejectAt,
        hposition, Outcome.result]
    | cons a s =>
      obtain ⟨l₂, hnext₂, h₂⟩ := h₁.next_cons
      simp only [List.length_cons] at hsteps
      obtain ⟨o, after, l₃, hbody, h₃, hreads⟩ :=
        ih steps (Nat.le_succ _) d l₂ _ h₂ (by simp only; omega)
      have hposition : l₃.position = after.position := h₃.position
      cases o with
      | inputEnd =>
        refine ⟨_, _, l₃, ?_, h₃, .bodyMissing hacts hreads⟩
        simp only [itemIn, hnext₁, hunbound, hacts.role, definitionIn, hnext₂, hbody, reject,
          rejectAt, hposition, Outcome.result]
      | groupEnd =>
        refine ⟨_, _, l₃, ?_, h₃, .bodyAbandoned hacts hreads⟩
        simp only [itemIn, hnext₁, hunbound, hacts.role, definitionIn, hnext₂, hbody,
          Outcome.result]
      | rejected r =>
        refine ⟨_, _, l₃, ?_, h₃, .bodyRejected hacts hreads⟩
        simp only [itemIn, hnext₁, hunbound, hacts.role, definitionIn, hnext₂, hbody,
          Outcome.result]
      | tooDeep =>
        refine ⟨_, _, l₃, ?_, h₃, .bodyTooDeep hacts hreads⟩
        simp only [itemIn, hnext₁, hunbound, hacts.role, definitionIn, hnext₂, hbody,
          Outcome.result]
      | token t =>
        -- the item after the definition is read with one step more than the body was
        obtain ⟨s₁, p₁, m₁⟩ := after
        have hle := hreads.length_le
        simp only [Reader.least] at hle
        obtain ⟨o, after, l₄, hrest, h₄, hreads₄⟩ :=
          ih (steps + 1) (Nat.le_refl _) (d + 2) _ _ (h₃.bindMacro a t) (by simp only; omega)
        refine ⟨o, after, l₄, ?_, h₄, .definition hacts hreads hreads₄⟩
        rw [itemIn]
        simp only [hnext₁, hunbound, hacts.role, definitionIn, hnext₂, hbody, Outcome.result, hrest]

/-- At a character that is not bound, the rules are followed if they are afterwards. -/
theorem At.unbound (ih : ∀ k ≤ steps, ItemFollows config k) (ihGroup : GroupFollows config steps)
    (h : l.At ⟨c :: s, p, m⟩) (hbound : m.lookup c = none) (hsteps : 2 * (s.length + 1) ≤ steps) :
    ∃ o after l', itemIn config (steps + 1) (d + 1) l = (o.result, l') ∧ l'.At after ∧
      Reads config .item (d + 1) ⟨c :: s, p, m⟩ o after := by
  obtain ⟨l₁, hnext, h₁⟩ := h.next_cons
  have hmacros : l₁.macros = m := h₁.macros
  rcases hrole : config.roleOf c with _ | role
  · obtain ⟨o, after, l₂, hread, h₂, hreads⟩ :=
      ih steps (Nat.le_refl _) (d + 1) l₁ _ h₁ (by simp only; omega)
    refine ⟨o, after, l₂, ?_, h₂, .skip ⟨hbound, hrole⟩ hreads⟩
    simp only [itemIn, hnext, hmacros, hbound, hrole, hread]
  cases role with
  | operator =>
    refine ⟨_, _, l₁, ?_, h₁, .operator ⟨hbound, hrole⟩⟩
    simp only [itemIn, hnext, hmacros, hbound, hrole, Outcome.result]
  | groupEnd =>
    refine ⟨_, _, l₁, ?_, h₁, .groupEnd ⟨hbound, hrole⟩⟩
    simp only [itemIn, hnext, hmacros, hbound, hrole, Outcome.result]
  | macroPrefix => exact At.definition ih h ⟨hbound, hrole⟩ hsteps
  | escapePrefix =>
    rcases s with _ | ⟨e, s⟩
    · obtain ⟨l₂, hnext₂, h₂⟩ := h₁.next_nil
      obtain ⟨steps, rfl⟩ : ∃ k, steps = k + 1 := ⟨steps - 1, by omega⟩
      obtain ⟨l₃, hnext₃, h₃⟩ := h₂.next_nil
      refine ⟨.inputEnd, _, l₃, ?_, h₃, .escapeNothing ⟨hbound, hrole⟩⟩
      simp only [itemIn, hnext, hmacros, hbound, hrole, hnext₂, hnext₃, Outcome.result]
    · obtain ⟨l₂, hnext₂, h₂⟩ := h₁.next_cons
      simp only [List.length_cons] at hsteps
      obtain ⟨o, after, l₃, hread, h₃, hreads⟩ :=
        ih steps (Nat.le_refl _) (d + 1) l₂ _ h₂ (by simp only; omega)
      refine ⟨o, after, l₃, ?_, h₃, .escape ⟨hbound, hrole⟩ hreads⟩
      simp only [itemIn, hnext, hmacros, hbound, hrole, hnext₂, hread]
  | numberPrefix =>
    obtain ⟨l₂, hread, h₂⟩ := h₁.numberIn config (by omega : s.length < steps)
    refine ⟨_, _, l₂, ?_, h₂, .number ⟨hbound, hrole⟩ rfl⟩
    simp only [itemIn, hnext, hmacros, hbound, hrole, hread, Outcome.result_of]
    cases numeral .. <;> rfl
  | groupStart =>
    obtain ⟨result, o, after, l₂, hread, hresult, h₂, hreads⟩ :=
      ihGroup d l₁ _ [] [] h₁ (by simp only; omega)
    refine ⟨o, after, l₂, ?_, h₂, .group ⟨hbound, hrole⟩ hreads⟩
    simp only [itemIn, hnext, hmacros, hbound, hrole, hread, ← hresult]
    cases result <;> rfl

/-- The reader of items follows the rules if all readers do with fewer steps. -/
theorem itemFollows_succ (ih : ∀ k ≤ steps, ItemFollows config k)
    (ihGroup : GroupFollows config steps) : ItemFollows config (steps + 1) := by
  rintro depth l ⟨rest, p, m⟩ h hsteps
  cases depth with
  | zero => exact ⟨.tooDeep, _, l, by simp only [itemIn, Outcome.result], h, .tooDeep⟩
  | succ d =>
    cases rest with
    | nil =>
      obtain ⟨l₁, hnext, h₁⟩ := h.next_nil
      refine ⟨.inputEnd, _, l₁, ?_, h₁, .inputEnd⟩
      simp only [itemIn, hnext, Outcome.result]
    | cons c s =>
      simp only [List.length_cons] at hsteps
      rcases hbound : m.lookup c with _ | t
      · exact At.unbound ih ihGroup h hbound (by omega)
      · obtain ⟨l₁, hnext, h₁⟩ := h.next_cons
        have hmacros : l₁.macros = m := h₁.macros
        refine ⟨.token t, _, l₁, ?_, h₁, .bound hbound⟩
        simp only [itemIn, hnext, hmacros, hbound, Outcome.result]

/-- The reader of groups follows the rules if all readers do with fewer steps. -/
theorem groupFollows_succ (ih : ItemFollows config steps) (ihGroup : GroupFollows config steps) :
    GroupFollows config (steps + 1) := by
  intro depth l c ts ds h hsteps
  rcases depth with _ | d
  · exact ⟨.error .tooDeep, .tooDeep, _, l, by simp only [groupIn], rfl, h, .tooDeep⟩
  obtain ⟨o, c₁, l₁, hitem, h₁, hreads⟩ := ih d l c h (by omega)
  have hposition : l₁.position = c₁.position := h₁.position
  have hle := hreads.length_le
  cases o with
  | token t =>
    simp only [Reader.least] at hle
    obtain ⟨result, o, after, l₂, hread, hresult, h₂, hreads₂⟩ :=
      ihGroup (d + 1) l₁ c₁ (t :: ts) ds h₁ (by omega)
    refine ⟨result, o, after, l₂, ?_, hresult, h₂, .groupToken hreads ?_⟩
    · simp only [groupIn, hitem, hread, Outcome.result]
    · simpa only [Scope.add, List.reverse_cons] using hreads₂
  | rejected r =>
    simp only [Reader.least] at hle
    obtain ⟨result, o, after, l₂, hread, hresult, h₂, hreads₂⟩ :=
      ihGroup (d + 1) l₁ c₁ ts (r.diagnostics.reverse ++ ds) h₁ (by omega)
    refine ⟨result, o, after, l₂, ?_, hresult, h₂, .groupRejected hreads ?_⟩
    · simp only [groupIn, hitem, hread, Outcome.result]
    · simpa only [Scope.note, List.reverse_append, List.reverse_reverse] using hreads₂
  | tooDeep =>
    refine ⟨.error .tooDeep, .tooDeep, _, l₁, ?_, rfl, h₁, .groupTooDeep hreads⟩
    simp only [groupIn, hitem, Outcome.result]
  | groupEnd =>
    refine ⟨finishGroup config ts ds l₁, _, _, l₁, ?_, ?_, h₁, .groupClosed hreads rfl⟩
    · simp only [groupIn, hitem, Outcome.result]
    · rw [finishGroup_eq, Outcome.result_of, hposition]
  | inputEnd =>
    refine ⟨finishGroup config ts (⟨l₁.position, unclosed config⟩ :: ds) l₁, _, _, l₁, ?_, ?_, h₁,
      .groupUnclosed hreads rfl⟩
    · simp only [groupIn, hitem, Outcome.result]
    · rw [finishGroup_eq, Outcome.result_of, hposition]
      simp only [Scope.note, List.reverse_cons]

/-- With enough steps for the characters that are left, the readers follow the rules. -/
theorem follows (config : Config) (steps : Nat) :
    (∀ k ≤ steps, ItemFollows config k) ∧ GroupFollows config steps := by
  induction steps with
  | zero =>
    refine ⟨fun k hk depth l c _ hsteps => ?_, fun depth l c ts ds _ hsteps => ?_⟩ <;> omega
  | succ steps ih =>
    -- items need all smaller numbers of steps, since a definition takes more than one step
    obtain ⟨ihItem, ihGroup⟩ := ih
    refine ⟨fun k hk => ?_, groupFollows_succ (ihItem steps (Nat.le_refl _)) ihGroup⟩
    rcases Nat.le_succ_iff.1 hk with hk | rfl
    · exact ihItem k hk
    · exact itemFollows_succ ihItem ihGroup

/-! ### Whole programs -/

/-- The reader of programs follows the rules. -/
theorem At.allIn {cursor : Cursor} {rounds : Nat} (depth : Nat) (ts : List Token)
    (ds : List Diagnostic) (h : l.At cursor) (hsteps : 2 * cursor.rest.length + 1 ≤ steps)
    (hrounds : cursor.rest.length < rounds) :
    ∃ result after l', Lexer.allIn config steps depth rounds ts ds l = (result, l') ∧
      l'.At after ∧ ReadsAll config depth ⟨ts.reverse, ds.reverse⟩ cursor result after := by
  -- every item before the end of the input consumes a character, so that the rounds suffice
  induction rounds generalizing l cursor ts ds with
  | zero => omega
  | succ rounds ih =>
    obtain ⟨o, c₁, l₁, hitem, h₁, hreads⟩ :=
      (follows config steps).1 steps (Nat.le_refl _) depth l cursor h hsteps
    have hposition : l₁.position = c₁.position := h₁.position
    have hle := hreads.length_le
    cases o with
    | token t =>
      simp only [Reader.least] at hle
      obtain ⟨result, after, l₂, hread, h₂, hall⟩ :=
        ih (t :: ts) ds h₁ (by omega) (by omega)
      refine ⟨result, after, l₂, ?_, h₂, .token hreads ?_⟩
      · simp only [Lexer.allIn, tokenIn, hitem, Outcome.result, hread]
      · simpa only [Scope.add, List.reverse_cons] using hall
    | rejected r =>
      simp only [Reader.least] at hle
      obtain ⟨result, after, l₂, hread, h₂, hall⟩ :=
        ih ts (r.diagnostics.reverse ++ ds) h₁ (by omega) (by omega)
      refine ⟨result, after, l₂, ?_, h₂, .rejected hreads ?_⟩
      · simp only [Lexer.allIn, tokenIn, hitem, Outcome.result, hread]
      · simpa only [Scope.note, List.reverse_append, List.reverse_reverse] using hall
    | groupEnd =>
      simp only [Reader.least] at hle
      obtain ⟨result, after, l₂, hread, h₂, hall⟩ :=
        ih ts (⟨c₁.position, unopened config⟩ :: ds) h₁ (by omega) (by omega)
      refine ⟨result, after, l₂, ?_, h₂, .unopened hreads ?_⟩
      · simp only [Lexer.allIn, tokenIn, hitem, Outcome.result, reject, rejectAt, hposition,
          Rejection.diagnostics, List.reverse_cons, List.reverse_nil, List.nil_append,
          List.cons_append, hread]
      · simpa only [Scope.note, List.reverse_cons] using hall
    | tooDeep =>
      refine ⟨_, _, l₁, ?_, h₁, .tooDeep hreads⟩
      simp only [Lexer.allIn, tokenIn, hitem, Outcome.result]
    | inputEnd =>
      refine ⟨_, _, l₁, ?_, h₁, .inputEnd hreads⟩
      simp only [Lexer.allIn, tokenIn, hitem, Outcome.result, Scope.program]
      cases Report.ofList? ds.reverse <;> rfl

/-- Reading everything from a cursor follows the rules. -/
theorem At.readAll {cursor : Cursor} (h : l.At cursor) (config : Config) (depth : Nat) :
    ∃ result after l', Lexer.readAll config depth l = (result, l') ∧ l'.At after ∧
      ReadsAll config depth .empty cursor result after := by
  have hle := h.length_le
  exact h.allIn depth [] [] (by omega) (by omega)

end Lexer

end Unroll
