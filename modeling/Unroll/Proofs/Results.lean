import Mathlib.Data.List.Forall2

/-!
# Results of what may fail

What comes of a computation in steps comes of its steps, and an error that is seen differently was an
error before.

* `exists_of_bind_ok`, `of_bind_error` — two steps, one after the other;
* `mapM_cases` — one step for each element of a list;
* `ok_of_mapError`, `error_of_mapError` — errors that are seen differently.
-/

namespace Unroll

/-- What a computation in steps gives was given by its second step. -/
theorem exists_of_bind_ok {ε α β : Type} {x : Except ε α} {f : α → Except ε β} {b : β}
    (h : x >>= f = .ok b) : ∃ a, x = .ok a ∧ f a = .ok b := by
  cases x with
  | error e => cases h
  | ok a => exact ⟨a, rfl, h⟩

/-- A computation in two steps fails in the first one, or in the second one. -/
theorem of_bind_error {ε α β : Type} {x : Except ε α} {f : α → Except ε β} {e : ε}
    (h : x >>= f = .error e) : x = .error e ∨ ∃ a, x = .ok a ∧ f a = .error e := by
  cases x with
  | error e' => exact .inl (congrArg Except.error (Except.error.inj h))
  | ok a => exact .inr ⟨a, rfl, h⟩

/-- To see an error differently does not matter to what is no error. -/
theorem ok_of_mapError {ε ε' α : Type} {x : Except ε α} {f : ε → ε'} {a : α}
    (h : x.mapError f = .ok a) : x = .ok a := by
  cases x with
  | error e => cases h
  | ok b => exact congrArg Except.ok (Except.ok.inj h)

/-- An error that is seen differently was an error before. -/
theorem error_of_mapError {ε ε' α : Type} {x : Except ε α} {f : ε → ε'} {e : ε'}
    (h : x.mapError f = .error e) : ∃ e', x = .error e' ∧ e = f e' := by
  cases x with
  | error e' => exact ⟨e', rfl, (Except.error.inj h).symm⟩
  | ok _ => cases h

/-- Something is done for all elements of a list, or it fails for one of them, and for none
before. -/
theorem mapM_cases {α β ε : Type} (f : α → Except ε β) (xs : List α) :
    (∃ ys, xs.mapM f = .ok ys ∧ List.Forall₂ (fun x y => f x = .ok y) xs ys) ∨
    ∃ before x after e, xs = before ++ x :: after ∧ (∀ y ∈ before, ∃ b, f y = .ok b) ∧
      f x = .error e ∧ xs.mapM f = .error e := by
  induction xs with
  | nil => exact .inl ⟨[], rfl, .nil⟩
  | cons x xs ih =>
    rw [List.mapM_cons]
    rcases hx : f x with e | b
    · exact .inr ⟨[], x, xs, e, rfl, List.forall_mem_nil _, hx, rfl⟩
    · rcases ih with ⟨ys, hmap, hys⟩ | ⟨before, y, after, e, rfl, hbefore, hy, hmap⟩
      · rw [hmap]
        exact .inl ⟨b :: ys, rfl, .cons hx hys⟩
      · rw [hmap]
        exact .inr ⟨x :: before, y, after, e, rfl, List.forall_mem_cons.2 ⟨⟨b, hx⟩, hbefore⟩, hy,
          rfl⟩

end Unroll
