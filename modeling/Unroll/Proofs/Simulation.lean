import Unroll.Proofs.Machine

/-!
# The lexer and the machine

The readers of the lexer call each other and the machine keeps a stack, but at every outcome of a
reader the machine stands where the outcome is handed to the reader below.

* `Machine.Agree` — two states come to the same, and fit alike;
* `Machine.resume`, `Machine.Leads` — how the machine goes on after an outcome;
* `Reads.leads`, `ReadsAll.final` — what is read by the rules, the machine reads as well;
* `Lexer.At.readAll_final`, `Lexer.readAll_eq_final` — the lexer comes to the same as the machine
  if the stack fits, and reads nothing if it does not.
-/

namespace Unroll

namespace Machine

section

variable {config : Config} {depth : Nat} {m : Machine}

/-! ### The machine follows the rules -/

/-- Two states come to the same, and each fits if the other does. -/
structure Agree (config : Config) (depth : Nat) (m m' : Machine) : Prop where
  final : m.final config = m'.final config
  collected : m.collected config = m'.collected config
  fits : m.Fits config depth ↔ m'.Fits config depth

theorem Agree.refl (m : Machine) : Agree config depth m m := ⟨rfl, rfl, Iff.rfl⟩

theorem Agree.trans {m₁ m₂ m₃ : Machine} (h₁ : Agree config depth m₁ m₂)
    (h₂ : Agree config depth m₂ m₃) : Agree config depth m₁ m₃ :=
  ⟨h₁.final.trans h₂.final, h₁.collected.trans h₂.collected, h₁.fits.trans h₂.fits⟩

theorem Agree.step (h : m.readers config ≤ depth) : Agree config depth m (m.step config) :=
  ⟨(final_step config m).symm, (collected_step config m).symm, by rw [fits_step, and_iff_right h]⟩

/-- At the end of the input, a stack may be exchanged for another that comes to the same. -/
theorem Agree.of_nil {cursor : Cursor} {stack stack' : Stack} (hnil : cursor.rest = [])
    (h : 2 * stack.height + 1 ≤ depth) (hle : stack'.height ≤ stack.height)
    (hunwind : stack.unwind config cursor.position [] = stack'.unwind config cursor.position []) :
    Agree config depth ⟨cursor, stack⟩ ⟨cursor, stack'⟩ := by
  refine ⟨?_, ?_, ?_⟩
  · rw [final_of_nil hnil, final_of_nil hnil, hunwind]
  · rw [collected_of_nil hnil, collected_of_nil hnil, hunwind]
  · rw [fits_of_nil hnil, fits_of_nil hnil]
    exact ⟨fun _ => by simp only; omega, fun _ => h⟩

/-- How the machine goes on after an outcome. -/
def resume (config : Config) (m : Machine) : Outcome → Machine
  | .token t => m.deliver t
  | .groupEnd => close config m.cursor m.stack
  | .rejected r => m.note r.diagnostics
  | .inputEnd | .tooDeep => m

theorem resume_of (m : Machine) (r : Except Rejection Token) :
    m.resume config (.of r) = m.hand r := by
  cases r <;> rfl

/-- One state agrees with how another goes on after an outcome, or it does not fit. -/
def Leads (config : Config) (depth : Nat) (m : Machine) (o : Outcome) (m' : Machine) : Prop :=
  (o ≠ .tooDeep → Agree config depth m (m'.resume config o)) ∧
    (o = .tooDeep → ¬ m.Fits config depth)

theorem Leads.tooDeep {m' : Machine} (h : ¬ m.Fits config depth) :
    Leads config depth m .tooDeep m' :=
  ⟨fun hne => absurd rfl hne, fun _ => h⟩

theorem Leads.of_agree {m' : Machine} {o : Outcome} (ho : o ≠ .tooDeep)
    (h : Agree config depth m (m'.resume config o)) : Leads config depth m o m' :=
  ⟨fun _ => h, fun heq => absurd heq ho⟩

theorem Agree.leads {m₁ m' : Machine} {o : Outcome} (h : Agree config depth m m₁)
    (hleads : Leads config depth m₁ o m') : Leads config depth m o m' :=
  ⟨fun hne => h.trans (hleads.1 hne), fun heq hfits => hleads.2 heq (h.fits.1 hfits)⟩

theorem Agree.of_step {m' : Machine} (h : m.readers config ≤ depth) (hstep : m.step config = m') :
    Agree config depth m m' := by
  rw [← hstep]
  exact .step h

theorem Agree.of_bound {c : Char} {s : List Char} {p : Position} {macros : MacroTable}
    {stack : Stack} {t : Token} (h : macros.lookup c = some t) (hroom : 2 * stack.height < depth) :
    Agree config depth ⟨⟨c :: s, p, macros⟩, stack⟩
      (deliver t ⟨⟨s, p.advance c, macros⟩, stack⟩) := by
  apply Agree.of_step
  · rw [readers_of_bound h]
    exact hroom
  · simp only [Machine.step, h]

theorem Agree.of_acts {m' : Machine} {c : Char} {s : List Char} {p : Position}
    {macros : MacroTable} {stack : Stack} {role : Option Role} (h : Acts config macros c role)
    (hrole : role ≠ some .macroPrefix) (hroom : 2 * stack.height < depth)
    (hstep : Machine.step config ⟨⟨c :: s, p, macros⟩, stack⟩ = m') :
    Agree config depth ⟨⟨c :: s, p, macros⟩, stack⟩ m' := by
  apply Agree.of_step
  · rw [readers_of_acts h hrole]
    exact hroom
  · exact hstep

/-- After the prefix and the symbol of a definition the machine stands before the body. -/
theorem Agree.of_macroPrefix {c : Char} {macros : MacroTable} {stack : Stack}
    (h : Acts config macros c (some .macroPrefix)) (a : Char) (s : List Char) (p : Position)
    (hroom : 2 * stack.height < depth) :
    Agree config depth ⟨⟨c :: a :: s, p, macros⟩, stack⟩
      ⟨⟨s, (p.advance c).advance a, macros⟩, .pending a stack⟩ := by
  apply Agree.of_step
  · rw [readers_cons_cons]
    exact hroom
  · simp only [Machine.step, h.unbound, h.role]

end

end Machine

/-- A scope with diagnostics makes no group. -/
theorem Scope.group_of_found {scope : Scope} (config : Config) (position : Position)
    (h : scope.found ≠ []) :
    ∃ r : Report, scope.group config position = .error (.report r) ∧
      r.diagnostics = scope.found := by
  obtain ⟨tokens, found⟩ := scope
  obtain ⟨d, ds, rfl⟩ := List.exists_cons_of_ne_nil h
  exact ⟨_, rfl, rfl⟩

/-- What a reader that was called on a stack has put on it. -/
def Reader.stack : Reader → Stack → Stack
  | .item, below => below
  | .group scope, below => .group scope below

/-- The readers at work in a group but for those of its items. -/
def Reader.level : Reader → Nat
  | .item => 0
  | .group _ => 1

namespace Reads

variable {config : Config} {d depth : Nat} {c a : Char} {s : List Char} {p : Position}
  {m : MacroTable} {stack : Stack}

open Machine in
/-- At a definition without a body the machine needs more readers than for an item. -/
theorem not_fits_definition (h : Acts config m c (some .macroPrefix))
    (hdepth : 1 + 2 * stack.height = depth) : ¬ Fits config depth ⟨⟨c :: s, p, m⟩, stack⟩ := by
  intro hfits
  rw [fits_step] at hfits
  obtain ⟨hreaders, hstep⟩ := hfits
  cases s with
  | nil =>
    rw [readers_of_symbolMissing h] at hreaders
    omega
  | cons a s =>
    simp only [step, h.unbound, h.role] at hstep
    exact not_fits (by simp only [Stack.height]; omega) hstep

open Machine in
/-- An open group at the end of the input is noted below it like any rejected group. -/
theorem agree_unclosed {scope : Scope} {after : Cursor} (hnil : after.rest = [])
    (hdepth : 2 * stack.height + 3 ≤ depth) :
    Agree config depth ⟨after, .group scope stack⟩
      (hand ⟨after, stack⟩
        ((scope.note [⟨after.position, Lexer.unclosed config⟩]).group config after.position)) := by
  have hne : (scope.note [⟨after.position, Lexer.unclosed config⟩]).found ≠ [] := by
    simp [Scope.note]
  obtain ⟨r, hgroup, hr⟩ := Scope.group_of_found config after.position hne
  have hhand : hand ⟨after, stack⟩ (.error (.report r)) = ⟨after, stack.note r.diagnostics⟩ := rfl
  have hle := stack.height_note_le r.diagnostics
  rw [hgroup, hhand]
  apply Agree.of_nil hnil
  · simp only [Stack.height]
    omega
  · simp only [Stack.height]
    omega
  · rw [Stack.unwind_note config after.position r.nonempty, hr]
    simp only [Stack.unwind, Scope.note, List.append_nil]

/-- Where an item may be read there is room for it. -/
theorem room_of_item (hdepth : d + 1 + Reader.item.level + 2 * stack.height = depth) :
    2 * stack.height < depth := by
  simp only [Reader.level] at hdepth
  omega

/-- The depth of the body of a definition. -/
theorem depth_of_body (a : Char)
    (hdepth : d + 2 + Reader.item.level + 2 * stack.height = depth) :
    d + Reader.item.level + 2 * (Stack.pending a stack).height = depth := by
  simp only [Reader.level, Stack.height] at hdepth ⊢
  omega

/-- The depth of the items of a group. -/
theorem depth_of_inner {scope : Scope}
    (hdepth : d + 1 + (Reader.group scope).level + 2 * stack.height = depth) :
    d + Reader.item.level + 2 * (Stack.group scope stack).height = depth := by
  simp only [Reader.level, Stack.height] at hdepth ⊢
  omega

open Machine in
/-- What a reader does, the machine does as well. The stack that the reader was called on is the
one on which the outcome is met. -/
theorem leads {reader : Reader} {cursor after : Cursor} {o : Outcome}
    (h : Reads config reader d cursor o after) (stack : Stack)
    (hdepth : d + reader.level + 2 * stack.height = depth) :
    Leads config depth ⟨cursor, reader.stack stack⟩ o ⟨after, stack⟩ := by
  -- a reader that calls another leaves on the stack what it needs to go on, so that the induction is
  -- over the rules, for every stack that the reader may be called on
  induction h generalizing stack with
  | @tooDeep reader cursor =>
    apply Leads.tooDeep
    apply not_fits
    cases reader <;> simp only [Reader.level, Reader.stack, Stack.height] at hdepth ⊢ <;> omega
  | inputEnd => exact .of_agree (by simp) (.refl _)
  | bound hbound => exact .of_agree (by simp) (.of_bound hbound (room_of_item hdepth))
  | skip hacts _ ih =>
    refine (Agree.of_acts hacts (by decide) (room_of_item hdepth) ?_).leads (ih stack hdepth)
    simp only [step, hacts.unbound, hacts.role, Reader.stack]
  | operator hacts =>
    refine .of_agree (by simp) (.of_acts hacts (by decide) (room_of_item hdepth) ?_)
    simp only [step, hacts.unbound, hacts.role, Reader.stack, resume]
  | groupEnd hacts =>
    refine .of_agree (by simp) (.of_acts hacts (by decide) (room_of_item hdepth) ?_)
    simp only [step, hacts.unbound, hacts.role, Reader.stack, resume]
  | escape hacts _ ih =>
    refine (Agree.of_acts hacts (by decide) (room_of_item hdepth) ?_).leads (ih stack hdepth)
    simp only [step, hacts.unbound, hacts.role, Reader.stack]
  | escapeNothing hacts =>
    refine .of_agree (by simp) (.of_acts hacts (by decide) (room_of_item hdepth) ?_)
    simp only [step, hacts.unbound, hacts.role, Reader.stack, resume]
  | number hacts ho =>
    subst ho
    refine .of_agree (Outcome.of_ne_tooDeep _) (.of_acts hacts (by decide) (room_of_item hdepth) ?_)
    simp only [step, hacts.unbound, hacts.role, Reader.stack, resume_of]
  | definitionTooDeep hacts => exact .tooDeep (not_fits_definition hacts hdepth)
  | symbolMissing hacts =>
    refine .of_agree (by simp) (.of_step ?_ ?_)
    · rw [Reader.stack, readers_of_symbolMissing hacts]
      simp only [Reader.level] at hdepth
      omega
    · simp only [Reader.stack, step, hacts.unbound, hacts.role, resume, Rejection.diagnostics]
  | @bodyMissing d c a s p m after hacts body ih =>
    have hbody := (ih (.pending a stack) (depth_of_body a hdepth)).1 (by simp)
    -- at the end of the input a pending definition is as good as the diagnostic that it causes
    have hmissing : Agree config depth ⟨after, .pending a stack⟩
        ⟨after, stack.note [⟨after.position, Lexer.macroMissing config⟩]⟩ := by
      have hpos := body.depth_pos (by simp)
      have hinner := depth_of_body a hdepth
      have hle := stack.height_note_le [⟨after.position, Lexer.macroMissing config⟩]
      apply Agree.of_nil body.rest_eq_nil
      · omega
      · exact Nat.le_succ_of_le hle
      · exact (Stack.unwind_note config after.position (List.cons_ne_nil _ _) stack).symm
    have hsymbol := Agree.of_macroPrefix hacts a s p (room_of_item hdepth)
    exact .of_agree (by simp) ((hsymbol.trans hbody).trans hmissing)
  | @bodyAbandoned d c a s p m after hacts body ih =>
    have hsymbol := Agree.of_macroPrefix hacts a s p (room_of_item hdepth)
    exact hsymbol.leads (ih (.pending a stack) (depth_of_body a hdepth))
  | @bodyRejected d c a s p m r after hacts body ih =>
    have hsymbol := Agree.of_macroPrefix hacts a s p (room_of_item hdepth)
    exact hsymbol.leads (ih (.pending a stack) (depth_of_body a hdepth))
  | @bodyTooDeep d c a s p m after hacts body ih =>
    have hsymbol := Agree.of_macroPrefix hacts a s p (room_of_item hdepth)
    have hbody := (ih (.pending a stack) (depth_of_body a hdepth)).2 rfl
    exact .tooDeep fun hfits => hbody (hsymbol.fits.1 hfits)
  | @definition d c a s p m t s₁ p₁ m₁ o after hacts body _ ihBody ihNext =>
    -- the body is delivered to the pending definition, which is gone with it
    have hsymbol := Agree.of_macroPrefix hacts a s p (room_of_item hdepth)
    have hbody := (ihBody (.pending a stack) (depth_of_body a hdepth)).1 (by simp)
    exact (hsymbol.trans hbody).leads (ihNext stack hdepth)
  | group hacts _ ih =>
    refine (Agree.of_acts hacts (by decide) (room_of_item hdepth) ?_).leads (ih stack ?_)
    · simp only [step, hacts.unbound, hacts.role, Reader.stack]
    · simp only [Reader.level] at hdepth ⊢
      omega
  | @groupToken d scope c t c₁ o after _ _ ihItem ihNext =>
    have hitem := (ihItem (.group scope stack) (depth_of_inner hdepth)).1 (by simp)
    exact hitem.leads (ihNext stack hdepth)
  | @groupRejected d scope c r c₁ o after _ _ ihItem ihNext =>
    have hitem := (ihItem (.group scope stack) (depth_of_inner hdepth)).1 (by simp)
    exact hitem.leads (ihNext stack hdepth)
  | @groupTooDeep d scope c after _ ih =>
    exact .tooDeep ((ih (.group scope stack) (depth_of_inner hdepth)).2 rfl)
  | @groupClosed d scope c o after _ ho ih =>
    subst ho
    refine .of_agree (Outcome.of_ne_tooDeep _) ?_
    rw [resume_of]
    exact (ih (.group scope stack) (depth_of_inner hdepth)).1 (by simp)
  | @groupUnclosed d scope c o after item ho ih =>
    subst ho
    have hitem := (ih (.group scope stack) (depth_of_inner hdepth)).1 (by simp)
    have hpos := item.depth_pos (by simp)
    refine .of_agree (Outcome.of_ne_tooDeep _) ?_
    rw [resume_of]
    refine hitem.trans (agree_unclosed item.rest_eq_nil ?_)
    simp only [Reader.level] at hdepth
    omega

end Reads

/-! ### Whole programs -/

theorem Scope.program_ne_tooDeep (scope : Scope) : scope.program ≠ .error .tooDeep := by
  rw [program]
  split <;> simp

open Machine in
/-- A program is read as the machine reads it, or the stack of the machine does not fit. -/
theorem ReadsAll.final {config : Config} {depth : Nat} {scope : Scope} {cursor after : Cursor}
    {result : Except Lexer.Failure (List Token)}
    (h : ReadsAll config depth scope cursor result after) :
    (result ≠ .error .tooDeep → Fits config depth ⟨cursor, .top scope⟩ ∧
      final config ⟨cursor, .top scope⟩ = (result, after.position, after.macros)) ∧
    (result = .error .tooDeep → ¬ Fits config depth ⟨cursor, .top scope⟩) := by
  induction h with
  | @token scope c t c₁ result after item _ ih | @rejected scope c t c₁ result after item _ ih
  | @unopened scope c c₁ result after item _ ih =>
    have hagree := (item.leads (.top scope) rfl).1 (by simp)
    refine ⟨fun hne => ?_, fun heq hfits => ih.2 heq (hagree.fits.1 hfits)⟩
    obtain ⟨hfits, hfinal⟩ := ih.1 hne
    exact ⟨hagree.fits.2 hfits, hagree.final.trans hfinal⟩
  | @tooDeep scope c after item =>
    exact ⟨fun hne => absurd rfl hne, fun _ => (item.leads (.top scope) rfl).2 rfl⟩
  | @inputEnd scope c after item =>
    have hagree := (item.leads (.top scope) rfl).1 (by simp)
    have hpos := item.depth_pos (by simp)
    refine ⟨fun _ => ⟨hagree.fits.2 ?_, hagree.final.trans ?_⟩,
      fun heq => absurd heq scope.program_ne_tooDeep⟩
    · exact (fits_of_nil item.rest_eq_nil).2 (by simp only [resume, Stack.height]; omega)
    · refine (final_of_nil item.rest_eq_nil).trans ?_
      simp only [resume, Stack.unwind, Scope.note, List.append_nil]

/-! ### The lexer and the machine -/

namespace Lexer

/-- A lexer that stands at a cursor reads what the machine comes to there if its stack fits, and
finds the groups too deep if it does not. -/
theorem At.readAll_final {l : Lexer} {cursor : Cursor} (h : l.At cursor) (config : Config)
    (depth : Nat) :
    (Machine.Fits config depth ⟨cursor, .top .empty⟩ →
      ((l.readAll config depth).1, (l.readAll config depth).2.position,
        (l.readAll config depth).2.macros) = Machine.final config ⟨cursor, .top .empty⟩) ∧
    (¬ Machine.Fits config depth ⟨cursor, .top .empty⟩ →
      (l.readAll config depth).1 = .error .tooDeep) := by
  obtain ⟨result, after, l', hread, hafter, hall⟩ := h.readAll config depth
  have hposition : l'.position = after.position := hafter.position
  have hmacros : l'.macros = after.macros := hafter.macros
  rw [hread]
  simp only [hposition, hmacros]
  by_cases hdeep : result = .error .tooDeep
  · exact ⟨fun hfits => absurd hfits (hall.final.2 hdeep), fun _ => hdeep⟩
  · obtain ⟨hfits, hfinal⟩ := hall.final.1 hdeep
    exact ⟨fun _ => hfinal.symm, fun hnot => absurd hfits hnot⟩

/-- The lexer and the machine come to the same tokens or the same diagnostics, the same position
and the same macros, unless more readers would be at work inside of each other than may be: then,
and only then, nothing is read. Each group and each definition takes a character and two readers at
most, so that this happens to no text that is short enough. -/
theorem readAll_eq_final (config : Config) (depth : Nat) (text : List Char) :
    ((Machine.start text).Fits config depth →
      (((ofText text).readAll config depth).1, ((ofText text).readAll config depth).2.position,
        ((ofText text).readAll config depth).2.macros) = (Machine.start text).final config) ∧
    (¬ (Machine.start text).Fits config depth →
      ((ofText text).readAll config depth).1 = .error .tooDeep) ∧
    (2 * text.length < depth → (Machine.start text).Fits config depth) := by
  obtain ⟨hfits, hdeep⟩ := (at_ofText text).readAll_final config depth
  refine ⟨hfits, hdeep, fun hlength => Machine.fits_of_length ?_⟩
  simpa only [Machine.start, Stack.height, Nat.zero_add] using hlength

/-- The lexer finds too many groups inside of each other too deep, whatever stands in them. -/
theorem readAll_groupStart {config : Config} {c : Char} (h : config.roleOf c = some .groupStart)
    {depth n : Nat} (hdepth : depth ≤ 2 * n) (rest : List Char) :
    ((ofText (List.replicate n c ++ rest)).readAll config depth).1 = .error .tooDeep :=
  ((at_ofText _).readAll_final config depth).2 (Machine.not_fits_groupStart h hdepth rest)

/-- The machine reads any number of groups inside of each other, and the lexer does not. -/
theorem readAll_ne_final :
    ((ofText (List.replicate 4000 '(' ++ '+' :: List.replicate 4000 ')')).readAll .standard
        nestingLimit).1 = .error .tooDeep ∧
    ((ofText (List.replicate 4000 '(' ++ '+' :: List.replicate 4000 ')')).readAll .standard
        nestingLimit).1 ≠
      ((Machine.start (List.replicate 4000 '(' ++ '+' :: List.replicate 4000 ')')).final
        .standard).1 := by
  have hrole : Config.standard.roleOf '(' = some .groupStart := rfl
  have hdepth : nestingLimit ≤ 2 * 4000 := by decide
  generalize '+' :: List.replicate 4000 ')' = rest
  have hdeep := readAll_groupStart hrole hdepth rest
  generalize List.replicate 4000 '(' ++ rest = text at hdeep ⊢
  refine ⟨hdeep, ?_⟩
  rw [hdeep]
  exact (Scope.program_ne_tooDeep _).symm

end Lexer

end Unroll
