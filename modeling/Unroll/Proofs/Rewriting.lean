import Mathlib.Logic.Relation
import Unroll.Proofs.Refusals
import Unroll.Proofs.Room

/-!
# Rewriting tokens

Tokens may be replaced by others that are written the same, wherever they stand. A multiplier passes
from one token to the next and never into or out of a group, so that what is replaced has to leave
the same multiplier behind; the line counter passes through everything, but does not decide what is
written next.

* `Token.carry` — the multiplier that tokens leave behind;
* `writeTokens_append` — tokens are written one part after the other;
* `Simplifies`, `Flattens` — replacements that keep the groups, and some that open a group;
* `Rewrites` — a replacement in a group in a group, and so on;
* `writeTokens_rewrites` — what is replaced is written the same, at all widths and under all
  multipliers. Without its group it takes less room.
-/

namespace Unroll

open Writer

/-! ### Doing things one after the other -/

namespace Writer

variable (act next last : Act)

theorem pure_andThen : andThen (fun w => (.ok (), w)) next = next := rfl

theorem andThen_pure : andThen act (fun w => (.ok (), w)) = act := by
  funext w
  rcases hact : act w with ⟨e | _, w'⟩
  · exact andThen_of_error hact
  · exact andThen_of_ok hact

theorem andThen_assoc : andThen (andThen act next) last = andThen act (andThen next last) := by
  funext w
  rcases hact : act w with ⟨e | _, w'⟩
  · rw [andThen_of_error (andThen_of_error hact), andThen_of_error hact]
  · rw [andThen_of_ok hact, andThen, andThen_of_ok hact, andThen]

theorem repeated_one : Writer.repeated act 1 = act := andThen_pure act

theorem repeated_add (m n : Nat) :
    Writer.repeated act (m + n) = andThen (Writer.repeated act m) (Writer.repeated act n) := by
  induction m with
  | zero => rw [Nat.zero_add, repeated_zero, pure_andThen]
  | succ m ih => rw [Nat.succ_add, repeated_succ, ih, repeated_succ, andThen_assoc]

theorem repeated_mul (m n : Nat) :
    Writer.repeated act (m * n) = Writer.repeated (Writer.repeated act n) m := by
  induction m with
  | zero => rw [Nat.zero_mul, repeated_zero, repeated_zero]
  | succ m ih => rw [Nat.succ_mul, Nat.add_comm, repeated_add, ih, repeated_succ]

end Writer

/-! ### What passes from one token to the next -/

namespace Token

/-- The multiplier that is left behind after tokens. -/
def carry : List Token → (multiplier : Int) → Int
  | [], multiplier => multiplier
  | .number n :: ts, _ => carry ts n
  | _ :: ts, _ => carry ts 1

/-- The last of some tokens is a number, which multiplies what comes after them. -/
def EndsInNumber (ts : List Token) : Prop := ∃ n, ts.getLast? = some (.number n)

theorem carry_cons {t : Token} (ht : ∀ n, t ≠ .number n) (ts : List Token) (multiplier : Int) :
    carry (t :: ts) multiplier = carry ts 1 := by
  rw [carry]
  exact ht

/-- Tokens that do not end in a number leave nothing behind. -/
theorem carry_of_ne_nil {ts : List Token} (hne : ts ≠ []) (h : ¬ EndsInNumber ts)
    (multiplier : Int) : carry ts multiplier = 1 := by
  induction ts generalizing multiplier with
  | nil => exact absurd rfl hne
  | cons t ts ih =>
    rcases ts with _ | ⟨u, us⟩
    · have ht : ∀ n, t ≠ .number n := fun n hn => h ⟨n, congrArg some hn⟩
      rw [carry_cons ht, carry]
    · have hlast : ¬ EndsInNumber (u :: us) := fun ⟨n, hn⟩ => h ⟨n, hn⟩
      have hcarry := ih (List.cons_ne_nil u us) hlast
      cases t with
      | number n => exact hcarry n
      | _ => exact hcarry 1

theorem carry_one {ts : List Token} (h : ¬ EndsInNumber ts) : carry ts 1 = 1 := by
  rcases eq_or_ne ts [] with rfl | hne
  · rfl
  · exact carry_of_ne_nil hne h 1

end Token

open Token

/-- Tokens are written one part after the other. What the first part leaves behind multiplies the
second. -/
theorem writeTokens_carry (xs ys : List Token) (depth : Nat) (multiplier : Int) :
    writeTokens (xs ++ ys) depth multiplier =
      andThen (writeTokens xs depth multiplier) (writeTokens ys depth (carry xs multiplier)) := by
  induction xs generalizing multiplier with
  | nil => rfl
  | cons t xs ih =>
    obtain ⟨n, rfl⟩ | hne := t.number_or
    · exact ih n
    · rw [List.cons_append, writeTokens_cons_eq hne, writeTokens_cons_eq hne, carry_cons hne, ih,
        andThen_assoc]

theorem writeTokens_append {xs : List Token} (h : ¬ EndsInNumber xs) (ys : List Token)
    (depth : Nat) :
    writeTokens (xs ++ ys) depth 1 = andThen (writeTokens xs depth 1) (writeTokens ys depth 1) := by
  rw [writeTokens_carry, carry_one h]

/-! ### What is multiplied -/

/-- A token that a number multiplies. -/
inductive Token.Multiplied : Token → Prop where
  | operator (symbol : String) : Multiplied (.operator symbol)
  | group (tokens : List Token) : Multiplied (.group tokens)

variable {t : Token} {ts ts' xs ys : List Token}

theorem Token.Multiplied.ne_number (h : t.Multiplied) (n : Int) : t ≠ .number n := by
  rintro rfl
  cases h

/-- What is multiplied is written as often. -/
theorem Token.Multiplied.writeToken (h : t.Multiplied) (depth times : Nat) :
    writeToken t depth times = Writer.repeated (writeToken t depth 1) times := by
  cases h with
  | operator symbol => rw [writeToken_operator, writeToken_operator, repeated_one]
  | group tokens => rw [writeToken_group, writeToken_group, repeated_one]

/-- A number in front of a token is as good as so many copies of the token. -/
theorem Token.Multiplied.writeTokens_replicate (h : t.Multiplied) (times : Nat) (ts : List Token)
    (depth : Nat) :
    writeTokens (List.replicate times t ++ ts) depth 1 =
      andThen (Unroll.writeToken t depth times) (writeTokens ts depth 1) := by
  rw [h.writeToken]
  induction times with
  | zero => rfl
  | succ times ih =>
    rw [List.replicate_succ, List.cons_append, writeTokens_cons_eq h.ne_number, ih, repeated_succ,
      andThen_assoc, Int.toNat_one]

/-! ### Replacements -/

/-- Replacements that are written just the same. -/
inductive Simplifies : List Token → List Token → Prop where
  /-- a number takes the place of the number before it -/
  | overridden (xs : List Token) (a b : Int) (ys : List Token) :
      Simplifies (xs ++ .number a :: .number b :: ys) (xs ++ .number b :: ys)
  /-- a number that nothing multiplies makes copies of the token after it -/
  | repeated {xs : List Token} (hxs : ¬ EndsInNumber xs) (n : Int) {t : Token} (ht : t.Multiplied)
      (ys : List Token) :
      Simplifies (xs ++ .number n :: t :: ys) (xs ++ (List.replicate n.toNat t ++ ys))
  /-- a number at the end multiplies nothing -/
  | trailing (xs : List Token) (n : Int) : Simplifies (xs ++ [.number n]) xs

/-- Replacements that open a group. -/
inductive Flattens : List Token → List Token → Prop where
  /-- a group that holds nothing but another one that is multiplied -/
  | multiplied (xs : List Token) {n m : Int} (hn : 0 ≤ n) (hm : 0 ≤ m) (ts ys : List Token) :
      Flattens (xs ++ .number n :: .group [.number m, .group ts] :: ys)
        (xs ++ .number (n * m) :: .group ts :: ys)
  /-- a group that is not multiplied, and leaves nothing behind without its delimiters -/
  | ungrouped {xs ts : List Token} (hxs : ¬ EndsInNumber xs) (hts : ¬ EndsInNumber ts)
      (ys : List Token) : Flattens (xs ++ .group ts :: ys) (xs ++ (ts ++ ys))

/-- A replacement is made in a list of tokens, or in a group of it. -/
inductive Rewrites (rule : List Token → List Token → Prop) : List Token → List Token → Prop where
  | here {ts ts' : List Token} (h : rule ts ts') : Rewrites rule ts ts'
  | inside (xs : List Token) {ts ts' : List Token} (h : Rewrites rule ts ts') (ys : List Token) :
      Rewrites rule (xs ++ .group ts :: ys) (xs ++ .group ts' :: ys)

theorem Simplifies.writeTokens_eq (h : Simplifies ts ts') (depth : Nat) :
    writeTokens ts' depth 1 = writeTokens ts depth 1 := by
  cases h with
  | overridden xs a b ys =>
    rw [writeTokens_carry, writeTokens_carry]
    rfl
  | @repeated xs hxs n t ht ys =>
    have hcopies := ht.writeTokens_replicate n.toNat ys depth
    have hnumber : writeTokens (.number n :: t :: ys) depth 1 = writeTokens (t :: ys) depth n := rfl
    rw [writeTokens_append hxs, writeTokens_append hxs, hcopies, hnumber,
      writeTokens_cons_eq ht.ne_number]
  | trailing xs n =>
    rw [writeTokens_carry]
    exact (andThen_pure _).symm

/-- A group among other tokens is written as often as the number before it says. -/
theorem writeTokens_group (xs ts ys : List Token) (depth : Nat) :
    writeTokens (xs ++ .group ts :: ys) depth 1 =
      andThen (writeTokens xs depth 1) (andThen
        (Writer.repeated (writeGroup ts depth) (carry xs 1).toNat) (writeTokens ys depth 1)) := by
  rw [writeTokens_carry, writeTokens_cons_eq (fun _ => Token.noConfusion), writeToken_group]

theorem writeTokens_number_group (xs : List Token) (n : Int) (ts ys : List Token) (depth : Nat) :
    writeTokens (xs ++ .number n :: .group ts :: ys) depth 1 =
      andThen (writeTokens xs depth 1) (andThen
        (Writer.repeated (writeGroup ts depth) n.toNat) (writeTokens ys depth 1)) := by
  have hnumber : writeTokens (.number n :: .group ts :: ys) depth (carry xs 1) =
      writeTokens (.group ts :: ys) depth n := rfl
  rw [writeTokens_carry, hnumber, writeTokens_cons_eq (fun _ => Token.noConfusion),
    writeToken_group]

/-- Replacements that are written the same are so in a group as well. -/
theorem Rewrites.writeTokens_eq {rule : List Token → List Token → Prop}
    (hrule : ∀ {ts ts' : List Token}, rule ts ts' → ∀ depth,
      writeTokens ts' depth 1 = writeTokens ts depth 1)
    (h : Rewrites rule ts ts') (depth : Nat) :
    writeTokens ts' depth 1 = writeTokens ts depth 1 := by
  induction h generalizing depth with
  | here h => exact hrule h depth
  | @inside xs ts ts' _ ys ih =>
    have hgroup : writeGroup ts' depth = writeGroup ts depth := by
      cases depth with
      | zero => rfl
      | succ depth => exact ih depth
    rw [writeTokens_group, writeTokens_group, hgroup]

/-! ### Less room -/

/-- Whatever is written, it is written the same where there is as much room for it. -/
theorem truncates_refl_writeTokens (ts : List Token) (depth : Nat) (multiplier : Int) :
    Truncates (writeTokens ts depth multiplier) (writeTokens ts depth multiplier) :=
  truncates_writeTokens ts (Nat.le_refl depth) multiplier

/-- A group that holds nothing but another one is written as the other one with less room. -/
theorem truncates_group_multiplied (ts : List Token) (m : Int) (depth : Nat) :
    Truncates (writeGroup [.number m, .group ts] depth)
      (Writer.repeated (writeGroup ts depth) m.toNat) := by
  cases depth with
  | zero =>
    obtain ⟨s, hs⟩ := follows_writeGroup ts 0
    obtain ⟨t, ht⟩ := hs.repeated m.toNat
    exact ⟨⟨[], .error .tooDeep⟩, t, Script.follows_pure _, ht, .cut rfl List.nil_prefix⟩
  | succ depth =>
    have hinner : writeGroup [.number m, .group ts] (depth + 1) =
        Writer.repeated (writeGroup ts depth) m.toNat := by
      have hgroup := writeTokens_cons_eq (t := .group ts) (fun _ => Token.noConfusion) [] depth m
      exact hgroup.trans ((andThen_pure _).trans (writeToken_group ts depth m.toNat))
    rw [hinner]
    exact (truncates_writeGroup ts (Nat.le_succ depth)).repeated m.toNat

theorem Flattens.truncates (h : Flattens ts ts') (depth : Nat) :
    Truncates (writeTokens ts depth 1) (writeTokens ts' depth 1) := by
  cases h with
  | @multiplied xs n m hn hm ts ys =>
    rw [writeTokens_number_group, writeTokens_number_group, Int.toNat_mul hn hm, repeated_mul]
    have hgroup := (truncates_group_multiplied ts m depth).repeated n.toNat
    exact (truncates_refl_writeTokens xs depth 1).andThen
      (hgroup.andThen (truncates_refl_writeTokens ys depth 1))
  | @ungrouped xs ts hxs hts ys =>
    rw [writeTokens_group, writeTokens_append hxs, writeTokens_append hts, carry_one hxs,
      Int.toNat_one, repeated_one]
    have hgroup : Truncates (writeGroup ts depth) (writeGroup ts (depth + 1)) :=
      truncates_writeGroup ts (Nat.le_succ depth)
    exact (truncates_refl_writeTokens xs depth 1).andThen
      (hgroup.andThen (truncates_refl_writeTokens ys depth 1))

theorem Rewrites.truncates (h : Rewrites Flattens ts ts') (depth : Nat) :
    Truncates (writeTokens ts depth 1) (writeTokens ts' depth 1) := by
  induction h generalizing depth with
  | here h => exact h.truncates depth
  | @inside xs ts ts' _ ys ih =>
    have hgroup : Truncates (writeGroup ts depth) (writeGroup ts' depth) := by
      cases depth with
      | zero => exact .of_follows (Script.follows_pure (.error .tooDeep))
      | succ depth => exact ih depth
    rw [writeTokens_group, writeTokens_group]
    exact (truncates_refl_writeTokens xs depth 1).andThen
      ((hgroup.repeated _).andThen (truncates_refl_writeTokens ys depth 1))

/-- Whatever the sink takes, whatever the width of the lines, and wherever the first line has begun:
replacements that keep the groups are written just the same, in whatever groups and under whatever
multipliers they are made. So are those that open a group, unless there was too little room for it;
then writing goes on from where there was no more room. One part of a list is written after the
other if the first leaves no multiplier behind. -/
theorem writeTokens_rewrites (depth : Nat) :
    (∀ {ts ts' : List Token}, Rewrites Simplifies ts ts' → ∀ w : Writer,
      writeTokens ts' depth 1 w = writeTokens ts depth 1 w) ∧
    (∀ {ts ts' : List Token}, Rewrites Flattens ts ts' → ∀ w : Writer,
      (levelsAll ts 1 ≤ depth → writeTokens ts' depth 1 w = writeTokens ts depth 1 w) ∧
      ((writeTokens ts depth 1 w).1 ≠ .error .tooDeep →
        writeTokens ts' depth 1 w = writeTokens ts depth 1 w) ∧
      (∀ w', writeTokens ts depth 1 w = (.error .tooDeep, w') →
        ∃ s : Script, writeTokens ts' depth 1 w = s.play w')) ∧
    (∀ {xs : List Token}, ¬ EndsInNumber xs → ∀ (ys : List Token) (w : Writer),
      writeTokens (xs ++ ys) depth 1 w =
        andThen (writeTokens xs depth 1) (writeTokens ys depth 1) w) := by
  refine ⟨fun h w => congrFun (h.writeTokens_eq Simplifies.writeTokens_eq depth) w, fun h w => ?_,
    fun h ys w => congrFun (writeTokens_append h ys depth) w⟩
  have htruncates := h.truncates depth
  refine ⟨fun hle => ?_, htruncates.eq_of_ne_tooDeep, fun w' => htruncates.goes_on⟩
  exact htruncates.eq_of_ne_tooDeep (writeTokens_ne_tooDeep _ hle w)

/-- In a group that is written twice, with a number that is overridden, an operator that is
multiplied and a group that is not. -/
example :
    let ts : List Token := [.number 2, .group [.number 5, .number 3, .operator "+",
      .group [.operator "-", .operator "."]]]
    let ts' : List Token := [.number 2, .group [.operator "+", .operator "+", .operator "+",
      .operator "-", .operator "."]]
    let calls := ["+", "+", "+", "\n", "-", ".", "+", "+", "\n", "+", "-", "."]
    let w : Writer := ⟨.unlimited, some ⟨4, 1⟩⟩
    (writeTokens ts writingLimit 1 w).2.sink.calls.reverse = calls ∧
      (writeTokens ts' writingLimit 1 w).2.sink.calls.reverse = calls := by
  decide +kernel

/-! ### The limit -/

/-- An operator in any number of groups is rewritten to itself, one group after the other. -/
theorem rewrites_nest (symbol : String) (n : Nat) :
    Relation.ReflTransGen (Rewrites Flattens) [(Token.operator symbol).nest n]
      [.operator symbol] := by
  induction n with
  | zero => exact .refl
  | succ n ih =>
    have hlast : ¬ EndsInNumber [(Token.operator symbol).nest n] := by
      rintro ⟨k, hk⟩
      cases n <;> simp [Token.nest] at hk
    have hnothing : ¬ EndsInNumber [] := by
      rintro ⟨k, hk⟩
      simp at hk
    have hopen := Flattens.ungrouped hnothing hlast []
    rw [List.nil_append, List.nil_append, List.append_nil] at hopen
    exact .head (.here hopen) ih

/-- One group after the other may be taken from around an operator. Before that nothing is written
where there are too many of them, and after it the operator is: not all of these replacements are
written the same. -/
theorem writeTokens_not_rewrites :
    let w : Writer := ⟨.unlimited, none⟩
    Relation.ReflTransGen (Rewrites Flattens) [(Token.operator "+").nest 4000] [.operator "+"] ∧
    writeTokens [(Token.operator "+").nest 4000] writingLimit 1 w = (.error .tooDeep, w) ∧
    writeTokens [.operator "+"] writingLimit 1 w = (.ok (), ⟨Sink.unlimited.after ["+"], none⟩) ∧
    ¬ ∀ {ts ts' : List Token}, Rewrites Flattens ts ts' →
      writeTokens ts' writingLimit 1 w = writeTokens ts writingLimit 1 w := by
  intro w
  have hlimit : writingLimit < 4000 := by decide
  have hdeep := writeTokens_nest hlimit (.operator "+") w
  refine ⟨rewrites_nest "+" 4000, hdeep, rfl, fun hsame => ?_⟩
  have hchain : ∀ {ts ts' : List Token}, Relation.ReflTransGen (Rewrites Flattens) ts ts' →
      writeTokens ts' writingLimit 1 w = writeTokens ts writingLimit 1 w := by
    intro ts ts' h
    induction h with
    | refl => rfl
    | tail _ hlast ih => exact (hsame hlast).trans ih
  have hwritten : writeTokens [.operator "+"] writingLimit 1 w = (.error .tooDeep, w) :=
    (hchain (rewrites_nest "+" 4000)).trans hdeep
  cases hwritten

end Unroll
