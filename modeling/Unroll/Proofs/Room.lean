import Unroll.Proofs.Scripts

/-!
# Room for groups

More room for groups inside of each other makes no difference to what is written, but where there
was too little of it: then writing goes on from there.

* `Writer.Act`, `Writer.andThen` — something that is done with a writer, and something after it;
* `writeGroup` — what is done for a group each time;
* `Script.CutFrom`, `Writer.Truncates` — the same is done, or the front of it that there was room
  for;
* `truncates_writeTokens` — with less room tokens are written the same, or cut short;
* `writeTokens_ne_tooDeep` — how much room is enough.
-/

namespace Unroll

/-- Something that is done with a writer. -/
abbrev Writer.Act : Type := Writer → Except Writer.Failure Unit × Writer

/-- Does one thing after another, unless the first fails. -/
def Writer.andThen (act next : Act) : Act := fun w =>
  match act w with
  | (.ok (), w) => next w
  | (.error e, w) => (.error e, w)

/-- What is done for a group each time: it takes room for itself, and its tokens are written. -/
def writeGroup (tokens : List Token) : (depth : Nat) → Writer.Act
  | 0 => fun w => (.error .tooDeep, w)
  | depth + 1 => writeTokens tokens depth 1

/-! ### One after the other -/

namespace Writer

variable {act act' next next' : Act} {w w' : Writer}

theorem andThen_of_ok (h : act w = (.ok (), w')) : andThen act next w = next w' := by
  rw [andThen, h]

theorem andThen_of_error {e : Failure} (h : act w = (.error e, w')) :
    andThen act next w = (.error e, w') := by
  rw [andThen, h]

theorem repeated_zero (act : Act) : repeated act 0 = fun w => (.ok (), w) := rfl

theorem repeated_succ (act : Act) (times : Nat) :
    repeated act (times + 1) = andThen act (repeated act times) := rfl

end Writer

theorem writeToken_group (tokens : List Token) (depth times : Nat) :
    writeToken (.group tokens) depth times = Writer.repeated (writeGroup tokens depth) times := by
  funext w
  cases depth <;> simp only [writeToken, writeGroup]

theorem writeToken_operator (symbol : String) (depth times : Nat) :
    writeToken (.operator symbol) depth times = Writer.repeated (·.putOperator symbol) times := by
  funext w
  simp only [writeToken]

/-- A token that is no number is written as often as it is multiplied, and then the others. -/
theorem writeTokens_cons_eq {t : Token} (ht : ∀ n, t ≠ .number n) (ts : List Token) (depth : Nat)
    (multiplier : Int) :
    writeTokens (t :: ts) depth multiplier =
      Writer.andThen (writeToken t depth multiplier.toNat) (writeTokens ts depth 1) := by
  funext w
  obtain ⟨hok, herror⟩ := writeTokens_cons ht ts depth multiplier w
  rcases hwrite : writeToken t depth multiplier.toNat w with ⟨e | _, w'⟩
  · rw [herror e w' hwrite, Writer.andThen_of_error hwrite]
  · rw [hok w' hwrite, Writer.andThen_of_ok hwrite]

/-! ### Cut short -/

namespace Script

/-- A script is another one, or the front of it up to where there was no more room. -/
inductive CutFrom (s t : Script) : Prop where
  | same (h : s = t)
  | cut (hending : s.ending = .error .tooDeep) (hops : s.ops <+: t.ops)

theorem Follows.sequence {s t : Script} {act next : Writer.Act} (hact : s.Follows act)
    (hnext : t.Follows next) : (s.andThen t).Follows (Writer.andThen act next) :=
  hact.andThen hnext (fun _ _ => Writer.andThen_of_ok) fun _ _ _ => Writer.andThen_of_error

theorem ops_prefix_andThen (s t : Script) : s.ops <+: (s.andThen t).ops := by
  rcases hending : s.ending with e | _
  · simp only [Script.andThen, hending, List.prefix_refl]
  · simp only [Script.andThen, hending, List.prefix_append]

theorem CutFrom.andThen {s s' t t' : Script} (h : s.CutFrom s') (ht : t.CutFrom t') :
    (s.andThen t).CutFrom (s'.andThen t') := by
  cases h with
  | same h =>
    subst h
    rcases hending : s.ending with e | _
    · exact .same (by simp only [Script.andThen, hending])
    · cases ht with
      | same ht => exact .same (by rw [ht])
      | cut htending hops =>
        refine .cut ?_ ?_
        · simp only [Script.andThen, hending, htending]
        · simp only [Script.andThen, hending]
          exact (List.prefix_append_right_inj s.ops).2 hops
  | cut hending hops =>
    refine .cut ?_ ?_
    · simp only [Script.andThen, hending]
    · simp only [Script.andThen, hending]
      exact hops.trans (ops_prefix_andThen s' t')

end Script

/-- The same is done, or only the front of it, for want of room. -/
def Writer.Truncates (act act' : Act) : Prop :=
  ∃ s t : Script, s.Follows act ∧ t.Follows act' ∧ s.CutFrom t

namespace Writer.Truncates

variable {act act' next next' : Act}

theorem of_follows {s : Script} (h : s.Follows act) : Truncates act act := ⟨s, s, h, h, .same rfl⟩

theorem andThen (h : Truncates act act') (hnext : Truncates next next') :
    Truncates (Writer.andThen act next) (Writer.andThen act' next') := by
  obtain ⟨s, s', hs, hs', hcut⟩ := h
  obtain ⟨t, t', ht, ht', hcutNext⟩ := hnext
  exact ⟨s.andThen t, s'.andThen t', hs.sequence ht, hs'.sequence ht', hcut.andThen hcutNext⟩

theorem repeated (h : Truncates act act') (times : Nat) :
    Truncates (Writer.repeated act times) (Writer.repeated act' times) := by
  induction times with
  | zero => exact of_follows (Script.follows_pure (.ok ()))
  | succ times ih => exact h.andThen ih

/-- What was not cut short is the same with more room. -/
theorem eq_of_ne_tooDeep (h : Truncates act act') {w : Writer} (hw : (act w).1 ≠ .error .tooDeep) :
    act' w = act w := by
  obtain ⟨s, t, hs, ht, hcut⟩ := h
  rw [ht w]
  rw [hs w] at hw ⊢
  cases hcut with
  | same h => rw [h]
  | cut hending hops =>
    obtain ⟨rest, hrest⟩ := hops
    rcases hput : w.putAll s.ops with ⟨e | _, w'⟩
    · have hmore := Script.putAll_append_of_error hput rest
      rw [hrest] at hmore
      rw [Script.play_of_putAll_error hput, Script.play_of_putAll_error hmore]
    · rw [Script.play_of_putAll hput] at hw
      exact absurd hending hw

/-- What was cut short goes on with more room, from where there was no more of it. -/
theorem goes_on (h : Truncates act act') {w w' : Writer} (hw : act w = (.error .tooDeep, w')) :
    ∃ s : Script, act' w = s.play w' := by
  obtain ⟨s, t, hs, ht, hcut⟩ := h
  rw [hs w] at hw
  rw [ht w]
  cases hcut with
  | same h => exact ⟨⟨[], .error .tooDeep⟩, by rw [← h, hw]; rfl⟩
  | cut hending hops =>
    obtain ⟨rest, hrest⟩ := hops
    rcases hput : w.putAll s.ops with ⟨e | _, last⟩
    · have hmore := Script.putAll_append_of_error hput rest
      rw [Script.play_of_putAll_error hput] at hw
      obtain rfl : last = w' := congrArg Prod.snd hw
      rw [hrest] at hmore
      exact ⟨⟨[], .error e⟩, by rw [Script.play_of_putAll_error hmore]; rfl⟩
    · have hmore := Script.putAll_append hput rest
      rw [Script.play_of_putAll hput] at hw
      obtain rfl : last = w' := congrArg Prod.snd hw
      rw [hrest] at hmore
      exact ⟨⟨rest, t.ending⟩, by rw [Script.play, Script.play, hmore]⟩

end Writer.Truncates

open Writer

theorem follows_writeGroup (tokens : List Token) (depth : Nat) :
    ∃ s : Script, s.Follows (writeGroup tokens depth) := by
  cases depth with
  | zero => exact ⟨_, Script.follows_pure (.error .tooDeep)⟩
  | succ depth => exact follows_writeTokens tokens depth 1

/-- What is no group takes no room. -/
theorem truncates_plain {t : Token} (ht : ∀ tokens, t ≠ .group tokens) (depth depth' times : Nat) :
    Truncates (writeToken t depth times) (writeToken t depth' times) := by
  have hsame : writeToken t depth' times = writeToken t depth times := by
    funext w
    cases t with
    | group tokens => exact absurd rfl (ht tokens)
    | _ => simp only [writeToken]
  obtain ⟨s, hs⟩ := follows_writeToken t depth times
  rw [hsame]
  exact .of_follows hs

/-- A group is written the same or cut short if its tokens are. -/
theorem truncates_group_of {tokens : List Token}
    (htokens : ∀ {depth depth' : Nat}, depth ≤ depth' →
      Truncates (writeTokens tokens depth 1) (writeTokens tokens depth' 1))
    {depth depth' : Nat} (h : depth ≤ depth') :
    Truncates (writeGroup tokens depth) (writeGroup tokens depth') := by
  cases depth with
  | zero =>
    obtain ⟨s, hs⟩ := follows_writeGroup tokens depth'
    exact ⟨⟨[], .error .tooDeep⟩, s, Script.follows_pure _, hs, .cut rfl List.nil_prefix⟩
  | succ depth =>
    obtain ⟨depth', rfl⟩ : ∃ k, depth' = k + 1 := ⟨depth' - 1, by omega⟩
    exact htokens (Nat.le_of_succ_le_succ h)

mutual
theorem truncates_writeToken : ∀ (t : Token) {depth depth' : Nat} (_ : depth ≤ depth') (times : Nat),
    Truncates (writeToken t depth times) (writeToken t depth' times)
  | .number _, depth, depth', _, times => truncates_plain (fun _ => Token.noConfusion) ..
  | .operator _, depth, depth', _, times => truncates_plain (fun _ => Token.noConfusion) ..
  | .foreign _, depth, depth', _, times => truncates_plain (fun _ => Token.noConfusion) ..
  | .group tokens, depth, depth', h, times => by
    rw [writeToken_group, writeToken_group]
    exact (truncates_group_of (fun hle => truncates_writeTokens tokens hle 1) h).repeated times
/-- With less room tokens are written the same, or cut short. -/
theorem truncates_writeTokens : ∀ (ts : List Token) {depth depth' : Nat} (_ : depth ≤ depth')
    (multiplier : Int),
    Truncates (writeTokens ts depth multiplier) (writeTokens ts depth' multiplier)
  | [], _, _, _, _ => .of_follows (Script.follows_pure (.ok ()))
  | t :: ts, depth, depth', h, multiplier => by
    obtain ⟨n, rfl⟩ | hne := t.number_or
    · have htail := truncates_writeTokens ts h n
      exact htail
    · rw [writeTokens_cons_eq hne, writeTokens_cons_eq hne]
      exact (truncates_writeToken t h multiplier.toNat).andThen (truncates_writeTokens ts h 1)
end

/-- With less room, a group is written the same each time, or cut short. -/
theorem truncates_writeGroup (tokens : List Token) {depth depth' : Nat} (h : depth ≤ depth') :
    Truncates (writeGroup tokens depth) (writeGroup tokens depth') :=
  truncates_group_of (fun hle => truncates_writeTokens tokens hle 1) h

/-! ### Room enough -/

namespace Writer

variable {act next : Act} {e : Failure}

theorem andThen_ne_error (hact : ∀ w, (act w).1 ≠ .error e) (hnext : ∀ w, (next w).1 ≠ .error e)
    (w : Writer) : (andThen act next w).1 ≠ .error e := by
  have hact := hact w
  rcases hdone : act w with ⟨e' | _, w'⟩
  · rw [hdone] at hact
    rwa [andThen_of_error hdone]
  · rw [andThen_of_ok hdone]
    exact hnext w'

theorem repeated_ne_error (hact : ∀ w, (act w).1 ≠ .error e) (times : Nat) (w : Writer) :
    (Writer.repeated act times w).1 ≠ .error e := by
  induction times generalizing w with
  | zero => simp [Writer.repeated]
  | succ times ih => exact andThen_ne_error hact ih w

theorem put_ne_tooDeep (w : Writer) (text : String) : (w.put text).1 ≠ .error .tooDeep := by
  rcases hwrite : w.sink.write text with ⟨f | _, sink⟩ <;> simp [put, hwrite]

theorem advance_ne_tooDeep (w : Writer) (counter : LineCounter) :
    (w.advance counter).1 ≠ .error .tooDeep := by
  simp only [advance]
  split
  · generalize hw : Writer.mk w.sink _ = w₁
    have hput := put_ne_tooDeep w₁ "\n"
    rcases hend : w₁.put "\n" with ⟨e | _, w₂⟩
    · rwa [hend] at hput
    · simp
  · simp

/-- An operator takes no room. -/
theorem putOperator_ne_tooDeep (symbol : String) (w : Writer) :
    (w.putOperator symbol).1 ≠ .error .tooDeep := by
  have hput := put_ne_tooDeep w symbol
  rcases hwrite : w.put symbol with ⟨e | _, w₁⟩
  · rw [hwrite] at hput
    simpa only [putOperator, hwrite] using hput
  · simp only [putOperator, hwrite]
    split
    · simp
    · exact advance_ne_tooDeep w₁ _

end Writer

open Token in
mutual
theorem writeToken_ne_tooDeep : ∀ (t : Token) {depth times : Nat} (_ : t.levels times ≤ depth)
    (w : Writer), (writeToken t depth times w).1 ≠ .error .tooDeep
  | .number _, _, _, _, w => by simp [writeToken]
  | .foreign _, _, _, _, w => by simp [writeToken]
  | .operator symbol, depth, times, _, w => by
    rw [writeToken_operator]
    exact repeated_ne_error (putOperator_ne_tooDeep symbol) times w
  | .group tokens, depth, times, h, w => by
    rw [writeToken_group]
    cases times with
    | zero => simp [Writer.repeated]
    | succ times =>
      rw [levels] at h
      obtain ⟨depth, rfl⟩ : ∃ k, depth = k + 1 := ⟨depth - 1, by omega⟩
      exact repeated_ne_error (writeTokens_ne_tooDeep tokens (Nat.le_of_succ_le_succ h)) (times + 1) w
/-- Where there is room for all groups that are written inside of each other, there is enough,
whatever the sink does. -/
theorem writeTokens_ne_tooDeep : ∀ (ts : List Token) {depth : Nat} {multiplier : Int}
    (_ : levelsAll ts multiplier ≤ depth) (w : Writer),
    (writeTokens ts depth multiplier w).1 ≠ .error .tooDeep
  | [], _, _, _, w => by simp [writeTokens]
  | t :: ts, depth, multiplier, h, w => by
    obtain ⟨n, rfl⟩ | hne := t.number_or
    · have htail : (writeTokens ts depth n w).1 ≠ .error .tooDeep := writeTokens_ne_tooDeep ts h w
      exact htail
    · rw [levelsAll_cons hne] at h
      obtain ⟨hhead, htail⟩ := Nat.max_le.1 h
      rw [writeTokens_cons_eq hne]
      exact andThen_ne_error (writeToken_ne_tooDeep t hhead) (writeTokens_ne_tooDeep ts htail) w
end

end Unroll
