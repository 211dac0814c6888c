import Mathlib.Data.List.DropRight
import Unroll.Position

/-!
# Positions in a text

The position after a text counts its newlines and the characters after the last of them, and
positions only grow.

* `Position.line_advanceBy_start`, `Position.column_advanceBy_start` — the position after a text;
* `Position.LE` — the order of positions in a text: by lines, and by columns within a line;
* `Position.le_advanceBy` — more characters lead to a later position.
-/

namespace Unroll

namespace Position

theorem advanceBy_append (p : Position) (xs ys : List Char) :
    p.advanceBy (xs ++ ys) = (p.advanceBy xs).advanceBy ys :=
  List.foldl_append

theorem advanceBy_concat (p : Position) (xs : List Char) (c : Char) :
    p.advanceBy (xs ++ [c]) = (p.advanceBy xs).advance c :=
  advanceBy_append p xs [c]

/-! ### The position after a text -/

theorem line_advanceBy_start (text : List Char) :
    (start.advanceBy text).line = 1 + text.count '\n' := by
  induction text using List.reverseRecOn with
  | nil => rfl
  | append_singleton text c ih =>
    rw [advanceBy_concat, advance, List.count_append, List.count_singleton]
    by_cases hc : c = '\n'
    · rw [if_pos hc, if_pos (beq_iff_eq.2 hc), ih, Int.natCast_add, Int.natCast_one, Int.add_assoc]
    · rw [if_neg hc, if_neg (mt beq_iff_eq.1 hc), Nat.add_zero, ih]

theorem column_advanceBy_start (text : List Char) :
    (start.advanceBy text).column = (text.rtakeWhile (· ≠ '\n')).length := by
  induction text using List.reverseRecOn with
  | nil => rfl
  | append_singleton text c ih =>
    rw [advanceBy_concat, advance]
    by_cases hc : c = '\n'
    · rw [if_pos hc, List.rtakeWhile_concat_neg _ _ _ (by simpa using hc), List.length_nil,
        Int.natCast_zero]
    · rw [if_neg hc, List.rtakeWhile_concat_pos _ _ _ (by simpa using hc), ih, List.length_append,
        List.length_singleton, Int.natCast_add, Int.natCast_one]

/-! ### The order of positions -/

/-- One position is not after another one. -/
instance : LE Position := ⟨fun p q => p.line < q.line ∨ p.line = q.line ∧ p.column ≤ q.column⟩

theorem le_def {p q : Position} :
    p ≤ q ↔ p.line < q.line ∨ p.line = q.line ∧ p.column ≤ q.column := Iff.rfl

instance (p q : Position) : Decidable (p ≤ q) := decidable_of_iff' _ le_def

theorem le_rfl {p : Position} : p ≤ p := le_def.2 (.inr ⟨rfl, Int.le_refl _⟩)

theorem le_trans {p q r : Position} (hpq : p ≤ q) (hqr : q ≤ r) : p ≤ r := by
  rw [le_def] at hpq hqr ⊢
  omega

theorem le_advance (p : Position) (c : Char) : p ≤ p.advance c := by
  rw [le_def, advance]
  split
  · exact .inl (Int.lt_succ _)
  · exact .inr ⟨rfl, Int.le_add_one (Int.le_refl _)⟩

theorem le_advanceBy (p : Position) (text : List Char) : p ≤ p.advanceBy text := by
  induction text generalizing p with
  | nil => exact le_rfl
  | cons c text ih => exact le_trans (le_advance p c) (ih (p.advance c))

end Position

end Unroll
