import Unroll.Position
import Unroll.Token

/-!
# Macros

A macro binds a character, its symbol, to a token. From then on the character stands for the
token, until it is bound again.

* `MacroTable` — the bindings in force, at most one for a symbol;
* `Binding` — one act of binding, as it is logged.
-/

namespace Unroll

/-- What is found by a key does not depend on entries of other keys. -/
theorem lookup_filter {α β : Type} [DecidableEq α] {p : α × β → Bool} {key : α}
    (hkept : ∀ value, p (key, value) = true) (entries : List (α × β)) :
    (entries.filter p).lookup key = entries.lookup key := by
  induction entries with
  | nil => rfl
  | cons entry entries ih =>
    obtain ⟨other, value⟩ := entry
    by_cases hother : key = other
    · subst hother
      simp [hkept]
    · have hne : (key == other) = false := by simp [hother]
      by_cases hp : p (other, value) = true
      · simp [hp, List.lookup_cons, hne, ih]
      · simp [hp, List.lookup_cons, hne, ih]

/-- The bindings in force, the latest first. -/
structure MacroTable where
  entries : List (Char × Token)

namespace MacroTable

/-- No bindings. -/
def empty : MacroTable := ⟨[]⟩

/-- The token that a character is bound to. -/
def lookup (table : MacroTable) (c : Char) : Option Token := table.entries.lookup c

/-- Binds `symbol` to `body` in place of what it was bound to. -/
def bind (table : MacroTable) (symbol : Char) (body : Token) : MacroTable :=
  ⟨(symbol, body) :: table.entries.filter (·.1 != symbol)⟩

theorem lookup_bind (table : MacroTable) (symbol : Char) (body : Token) (c : Char) :
    (table.bind symbol body).lookup c = if c = symbol then some body else table.lookup c := by
  by_cases h : c = symbol
  · simp [lookup, bind, h]
  · have hc : (c == symbol) = false := by simp [h]
    simp only [lookup, bind, List.lookup_cons, hc, if_neg h]
    exact lookup_filter (fun _ => by simp [h]) table.entries

end MacroTable

/-- A symbol was bound to a body; `position` is that of the end of the definition. -/
structure Binding where
  position : Position
  symbol : Char
  body : Token

/-- The description of a binding. -/
def Binding.message (b : Binding) : String :=
  s!"{b.position}: binding macro {Text.quoted [b.symbol]} to {b.body.display}"

end Unroll
