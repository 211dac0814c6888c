import Unroll.Proofs.Steps

/-!
# Reading gets on

Every call of a reader takes a character or finds the end of the input, and once the end is found it
stays found. So the loops that read on after a syntax error come to an end, on every text, and at the
end nothing is left. Only the number of readers that may be at work inside of each other stops them
before.

* `Lexer.AtEnd` — there is nothing more to come;
* `Lexer.atEnd_of_itemIn` — the readers find the end of the input only there;
* `Lexer.AtEnd.run` — whatever is asked of a lexer at its end, it is left as it was;
* `Lexer.GetsOn`, `Lexer.LoopsEnd` — what one call gets on by, and what ends;
* `Lexer.readers_progress` — both hold in every state that operations on a lexer lead to;
* `Lexer.readAll_leaves_groups` — too many groups inside of each other are not read to their end.
-/

namespace Unroll

/-! ### Sources at their end -/

namespace Source

/-- A source that has given nothing has nothing left, and will give nothing again. -/
theorem pull_of_pull_none {source after : Source} (h : source.pull = (.ok none, after)) :
    after.left = [] ∧ after.pull = (.ok none, after) := by
  obtain ⟨buffer, stream, chunk, reads, finished⟩ := source
  rcases buffer with _ | ⟨c, buffer⟩
  · simp only [pull] at h
    split at h
    · rename_i hfinished
      cases h
      simp [left, pull, hfinished]
    · split at h
      all_goals cases h
      simp [left, pull]
  · cases h

end Source

namespace Lexer

variable {config : Config} {steps depth : Nat} {l l' l₁ : Lexer} {c : Char}

/-! ### Lexers at the end of their input -/

/-- The lexer stands at the end of its input: it asks for a character, gets none, and is left as it
was. -/
def AtEnd (l : Lexer) : Prop := l.next = (.ok none, l)

theorem atEnd_of_next (h : l.next = (.ok none, l')) : l'.AtEnd := by
  rcases hpeek : l.peek with ⟨f | _ | c, l₁⟩
  · simp [next, hpeek] at h
  · simp only [next, hpeek, Prod.mk.injEq, true_and] at h
    obtain rfl : l₁ = l' := h
    obtain ⟨source, lookahead, position, macros, log⟩ := l
    cases lookahead with
    | some d => simp [peek] at hpeek
    | none =>
      rcases hpull : source.pull with ⟨f | c, after⟩
      · simp [peek, hpull] at hpeek
      · simp only [peek, hpull, Prod.mk.injEq, Except.ok.injEq] at hpeek
        obtain ⟨rfl, rfl⟩ := hpeek
        simp only [AtEnd, next, peek, (Source.pull_of_pull_none hpull).2]
  · simp [next, hpeek] at h

/-- With enough steps, only the end of the input ends a reader of items with nothing. -/
theorem atEnd_of_itemIn (hsteps : 2 * l.remaining + 1 ≤ steps)
    (h : itemIn config steps depth l = (.ok .inputEnd, l')) : l'.AtEnd := by
  induction steps generalizing l with
  | zero => omega
  | succ steps ih =>
    rcases depth with _ | depth
    · simp [itemIn] at h
    rcases hnext : l.next with ⟨f | _ | c, l₁⟩
    · simp [itemIn, hnext] at h
    · simp only [itemIn, hnext, Prod.mk.injEq, true_and] at h
      exact h ▸ atEnd_of_next hnext
    · have hless := remaining_of_next hnext
      rcases itemIn_again_or config steps depth hnext with ⟨l₂, h₂, hagain⟩ | ⟨hne, -⟩
      · exact ih (by omega) (hagain ▸ h)
      · exact absurd (congrArg Prod.fst h) hne

theorem atEnd_of_token (h : l.readToken config depth = (.ok none, l')) : l'.AtEnd := by
  rcases hread : itemIn config l.steps depth l with ⟨e | t | _ | _, l₁⟩
  · simp [readToken, tokenIn, hread] at h
  · simp [readToken, tokenIn, hread] at h
  · simp [readToken, tokenIn, hread, reject, rejectAt] at h
  · simp only [readToken, tokenIn, hread, Prod.mk.injEq, true_and] at h
    exact h ▸ atEnd_of_itemIn (by rw [Lexer.steps]; omega) hread

namespace AtEnd

theorem peek (h : l.AtEnd) : l.peek = (.ok none, l) := by
  rcases hpeek : l.peek with ⟨f | _ | c, l₁⟩
  · simp [AtEnd, next, hpeek] at h
  · simpa [AtEnd, next, hpeek] using h
  · simp [AtEnd, next, hpeek] at h

/-- At the end of the input nothing is left. -/
theorem left (h : l.AtEnd) : l.lookahead.toList ++ l.source.left = [] := by
  obtain ⟨source, lookahead, position, macros, log⟩ := l
  have hpeek := h.peek
  cases lookahead with
  | some c => simp [Lexer.peek] at hpeek
  | none =>
    rcases hpull : source.pull with ⟨f | c, after⟩
    · simp [Lexer.peek, hpull] at hpeek
    · simp only [Lexer.peek, hpull, Prod.mk.injEq, Except.ok.injEq, Lexer.mk.injEq] at hpeek
      obtain ⟨rfl, rfl, -⟩ := hpeek
      exact (Source.pull_of_pull_none hpull).1

theorem next (h : l.AtEnd) : l.next = (.ok none, l) := h

theorem takeDigits (h : l.AtEnd) (steps : Nat) : Lexer.takeDigits steps [] l = (.ok [], l) := by
  cases steps with
  | zero => rfl
  | succ steps => simp only [Lexer.takeDigits, h.peek, List.reverse_nil]

theorem numberIn (h : l.AtEnd) (config : Config) (steps : Nat) :
    Lexer.numberIn config steps l = (l.reject (numberMissing config), l) := by
  simp only [Lexer.numberIn, h.takeDigits]

theorem itemIn (h : l.AtEnd) (config : Config) (steps depth : Nat) :
    Lexer.itemIn config (steps + 1) depth l =
      (if depth = 0 then .error .tooDeep else .ok .inputEnd, l) := by
  cases depth <;> simp [Lexer.itemIn, h.next]

theorem definitionIn (h : l.AtEnd) (config : Config) (steps depth : Nat) :
    Lexer.definitionIn config (steps + 1) depth l =
      (if depth = 0 then .error .tooDeep else l.reject (macroMissing config), l) := by
  cases depth <;> simp [Lexer.definitionIn, h.next]

theorem tokenIn (h : l.AtEnd) (config : Config) (steps depth : Nat) :
    Lexer.tokenIn config (steps + 1) depth l =
      (if depth = 0 then .error .tooDeep else .ok none, l) := by
  cases depth <;> simp [Lexer.tokenIn, h.itemIn]

theorem groupIn (h : l.AtEnd) (config : Config) (steps depth : Nat) (tokens : List Token)
    (found : List Diagnostic) :
    (Lexer.groupIn config (steps + 2) depth tokens found l).2 = l := by
  cases depth with
  | zero => simp only [Lexer.groupIn]
  | succ depth => cases depth <;> simp [Lexer.groupIn, h.itemIn]

theorem allIn (h : l.AtEnd) (config : Config) (steps depth rounds : Nat) (tokens : List Token) :
    Lexer.allIn config (steps + 1) depth (rounds + 1) tokens [] l =
      (if depth = 0 then .error .tooDeep else .ok tokens.reverse, l) := by
  cases depth <;> simp [Lexer.allIn, h.tokenIn, Report.ofList?]

theorem listIn (h : l.AtEnd) (config : Config) (steps depth rounds : Nat) (tokens : List Token) :
    Lexer.listIn config (steps + 1) depth (rounds + 1) tokens l =
      (if depth = 0 then .error .tooDeep else .ok tokens.reverse, l) := by
  cases depth <;> simp [Lexer.listIn, h.tokenIn]

/-- Whatever is asked of a lexer at the end of its input, it is left as it was. -/
theorem perform {s : Session} (h : s.lexer.AtEnd) (config : Config) (depth : Nat)
    (op : Operation) : (s.perform config depth op).2.lexer = s.lexer := by
  cases op with
  | peek => exact congrArg Prod.snd h.peek
  | next => exact congrArg Prod.snd h.next
  | readNumber => exact congrArg Prod.snd (h.numberIn config _)
  | readItem => exact congrArg Prod.snd (h.itemIn config _ depth)
  | readDefinition => exact congrArg Prod.snd (h.definitionIn config _ depth)
  | readGroup => exact h.groupIn config _ depth [] []
  | readToken => exact congrArg Prod.snd (h.tokenIn config _ depth)
  | readAll => exact congrArg Prod.snd (h.allIn config _ depth _ [])
  | readList => exact congrArg Prod.snd (h.listIn config _ depth _ [])
  | walk number =>
    have htoken : s.lexer.readToken config depth = _ := h.tokenIn config _ depth
    simp only [Session.perform]
    rcases s.walks number with _ | _
    · cases depth <;> simp [Iteration.next, htoken]
    · rfl

theorem run {s : Session} (h : s.lexer.AtEnd) (config : Config) (depth : Nat)
    (ops : List Operation) : (s.run config depth ops).2.lexer = s.lexer := by
  induction ops generalizing s with
  | nil => rfl
  | cons op ops ih =>
    have hperform := h.perform config depth op
    exact (ih (hperform.symm ▸ h)).trans hperform

end AtEnd

/-! ### Getting on -/

/-- What the lexer has left, the position it has reached, and its macros. -/
def cursor (l : Lexer) : Cursor := ⟨l.lookahead.toList ++ l.source.left, l.position, l.macros⟩

theorem at_cursor (h : l.source.ending = .quiet) : l.At l.cursor := ⟨rfl, rfl, rfl, h⟩

theorem quiet_peek (h : l.source.ending = .quiet) : l.peek.2.source.ending = .quiet := by
  rcases hcursor : l.cursor with ⟨_ | ⟨c, rest⟩, p, m⟩
  all_goals have hat := hcursor ▸ at_cursor h
  · obtain ⟨after, hpeek, hafter⟩ := hat.peek_nil
    exact hpeek ▸ hafter.quiet
  · obtain ⟨after, hpeek, hafter, -⟩ := hat.stands.peek_cons
    exact hpeek ▸ hafter.ending

/-- A source that does not fail will not fail later. -/
theorem keeps_quiet (config : Config) :
    Keeps config (fun l => l.source.ending = .quiet) (fun _ => True) (fun _ => True) where
  peek h := quiet_peek h
  consume h hpeek := (congrArg (·.2.source.ending) hpeek).symm.trans (quiet_peek h)
  bindMacro h _ _ := h
  bound _ _ := trivial
  operator _ := trivial
  number _ := trivial
  group _ _ := trivial
  found _ _ := trivial

/-- The characters consumed are missing from those that may be left. -/
theorem Consumes.remaining {consumed : List Char} (h : Consumes l consumed l') :
    l.remaining = consumed.length + l'.remaining := by
  induction h with
  | nothing => simp
  | look _ ih => rw [ih, remaining_peek]
  | take _ hpeek ih =>
    have hless := remaining_consume hpeek
    rw [ih, List.length_append, List.length_singleton]
    omega
  | bind _ _ _ ih => exact ih

/-- The end of the input is reached for good: nothing is left, an item is the end of the input from
now on, and whatever is asked of the lexer leaves it as it is. -/
structure Exhausted (config : Config) (l : Lexer) : Prop where
  left : l.lookahead.toList ++ l.source.left = []
  item {depth : Nat} (h : 0 < depth) : l.readItem config depth = (.ok .inputEnd, l)
  still (depth : Nat) (ops : List Operation) {s : Session} (h : s.lexer = l) :
    (s.run config depth ops).2.lexer = l

theorem AtEnd.exhausted (h : l.AtEnd) (config : Config) : l.Exhausted config where
  left := h.left
  item {depth} hdepth := by
    have hitem : l.readItem config depth = _ := h.itemIn config (2 * l.remaining + 2) depth
    rw [hitem, if_neg (Nat.ne_of_gt hdepth)]
  still depth ops s hs := by
    subst hs
    exact h.run config depth ops

/-- A call that may find the end of the input gets on: it consumes a character, or finds the end for
good, or too many readers are at work inside of each other, which takes a long text. -/
structure GetsOn {α : Type} (config : Config) (depth : Nat) (ended : α) (l : Lexer)
    (read : Except Failure α × Lexer) : Prop where
  consumed : ∃ consumed, Consumes l consumed read.2 ∧
    (consumed = [] → read.1 = .ok ended ∨ read.1 = .error .tooDeep)
  ended (h : read.1 = .ok ended) : read.2.Exhausted config
  tooDeep (h : read.1 = .error .tooDeep) : depth ≤ 2 * l.cursor.rest.length
  sound (f : Fault) : read.1 ≠ .error (.input f)

/-- What is nested too deeply is longer than half of what may be at work. -/
theorem depth_le_of_tooDeep {cursor after : Cursor}
    (h : Reads config .item depth cursor .tooDeep after) : depth ≤ 2 * cursor.rest.length := by
  by_contra hlong
  refine (h.leads (.top .empty) rfl).2 rfl (Machine.fits_of_length ?_)
  simp only [Reader.stack, Stack.height]
  omega

theorem getsOn_readItem (h : l.source.ending = .quiet) (config : Config) (depth : Nat) :
    GetsOn config depth .inputEnd l (l.readItem config depth) := by
  have hat := at_cursor h
  have hsteps := hat.length_le
  obtain ⟨o, after, l', hitem, -, hreads⟩ :=
    (follows config l.steps).1 l.steps (Nat.le_refl _) depth l l.cursor hat (by omega)
  obtain ⟨consumed, hconsumed⟩ :=
    (((keeps_consumes config l).readers l.steps).item depth ⟨[], .nothing⟩).state
  have hpaid := hconsumed.remaining
  rw [readItem]
  rw [hitem] at hconsumed hpaid ⊢
  constructor
  · refine ⟨consumed, hconsumed, ?_⟩
    rintro rfl
    rw [List.length_nil] at hpaid
    cases o with
    | token t => exact absurd (remaining_of_itemIn hitem (.token t)) (by simp only at hpaid; omega)
    | groupEnd => exact absurd (remaining_of_itemIn hitem .groupEnd) (by simp only at hpaid; omega)
    | rejected r =>
      exact absurd (remaining_of_itemIn hitem (.rejected r)) (by simp only at hpaid; omega)
    | inputEnd => exact .inl rfl
    | tooDeep => exact .inr rfl
  · intro hended
    have hended : o.result = .ok .inputEnd := hended
    rw [hended] at hitem
    exact (atEnd_of_itemIn (by rw [Lexer.steps]; omega) hitem).exhausted config
  · intro hdeep
    cases o with
    | tooDeep => exact depth_le_of_tooDeep hreads
    | _ => simp [Outcome.result] at hdeep
  · cases o <;> simp [Outcome.result]

theorem getsOn_readToken (h : l.source.ending = .quiet) (config : Config) (depth : Nat) :
    GetsOn config depth none l (l.readToken config depth) := by
  have hitem := getsOn_readItem h config depth
  rw [readItem] at hitem
  obtain ⟨consumed, hconsumed, hnothing⟩ := hitem.consumed
  rcases hread : itemIn config l.steps depth l with ⟨e | t | _ | _, l'⟩
  all_goals
    rw [hread] at hitem hconsumed hnothing
    simp only [readToken, tokenIn, hread]
  · refine ⟨⟨consumed, hconsumed, fun hnil => ?_⟩, by simp, fun hdeep => hitem.tooDeep ?_, ?_⟩
    · simpa using hnothing hnil
    · simpa using hdeep
    · simpa using hitem.sound
  · have hne : consumed ≠ [] := by simpa using hnothing
    exact ⟨⟨consumed, hconsumed, fun hnil => absurd hnil hne⟩, by simp, by simp, by simp⟩
  · have hne : consumed ≠ [] := by simpa using hnothing
    simp only [reject, rejectAt]
    exact ⟨⟨consumed, hconsumed, fun hnil => absurd hnil hne⟩, by simp, by simp, by simp⟩
  · exact ⟨⟨consumed, hconsumed, fun _ => .inl rfl⟩, fun _ => hitem.ended rfl, by simp, by simp⟩

/-! ### The loops end -/

/-- What is collected to the end of the input is collected up to there. -/
theorem atEnd_of_collectIn {rounds : Nat} {ts : List Token} {ds : List Diagnostic} {scope : Scope}
    (hsteps : l.steps ≤ steps) (hrounds : l.remaining < rounds)
    (h : collectIn config steps depth rounds ts ds l = (.ok scope, l')) : l'.AtEnd := by
  induction rounds generalizing l ts ds with
  | zero => omega
  | succ rounds ih =>
    rcases hread : l.readToken config depth with ⟨(r | f | _) | (_ | t), l₁⟩
    all_goals simp only [collectIn, tokenIn_eq config depth hsteps, hread] at h
    · have hless := remaining_of_rejected hread
      have hle := steps_le (Nat.le_of_lt hless)
      exact ih (Nat.le_trans hle hsteps) (by omega) h
    · simp at h
    · simp at h
    · obtain rfl : l₁ = l' := congrArg Prod.snd h
      exact atEnd_of_token hread
    · have hless := remaining_of_token hread
      have hle := steps_le (Nat.le_of_lt hless)
      exact ih (Nat.le_trans hle hsteps) (by omega) h

/-- The loops of the readers end by themselves: larger bounds on their steps and rounds make no
difference, and what they come to takes finitely many of the rules, which have no such bounds. -/
structure LoopsEnd (config : Config) (depth : Nat) (l : Lexer) : Prop where
  item {steps : Nat} (h : l.steps ≤ steps) : itemIn config steps depth l = l.readItem config depth
  definition {steps : Nat} (h : l.steps ≤ steps) :
    definitionIn config steps depth l = l.readDefinition config depth
  group {steps : Nat} (h : l.steps ≤ steps) :
    groupIn config steps depth [] [] l = l.readGroup config depth
  number {steps : Nat} (h : l.steps ≤ steps) : numberIn config steps l = l.readNumber config
  all {steps rounds : Nat} (hsteps : l.steps ≤ steps) (hrounds : l.steps ≤ rounds) :
    allIn config steps depth rounds [] [] l = l.readAll config depth
  itemRules : ∃ o after, (l.readItem config depth).1 = o.result ∧
    (l.readItem config depth).2.At after ∧ Reads config .item depth l.cursor o after
  groupRules : ∃ o after, (l.readGroup config depth).1.map .token = o.result ∧
    (l.readGroup config depth).2.At after ∧ Reads config (.group .empty) depth l.cursor o after
  allRules : ∃ after, (l.readAll config depth).2.At after ∧
    ReadsAll config depth .empty l.cursor (l.readAll config depth).1 after

theorem loopsEnd (h : l.source.ending = .quiet) (config : Config) (depth : Nat) :
    LoopsEnd config depth l where
  item := itemIn_eq config depth
  definition := definitionIn_eq config depth
  group := groupIn_eq config depth
  number := numberIn_eq config
  all hsteps hrounds :=
    allIn_eq config depth hsteps (Nat.lt_of_lt_of_le (by rw [steps]; omega) hrounds)
  itemRules := by
    have hat := at_cursor h
    have hsteps := hat.length_le
    obtain ⟨o, after, l', hread, hafter, hreads⟩ :=
      (follows config l.steps).1 l.steps (Nat.le_refl _) depth l l.cursor hat (by omega)
    exact ⟨o, after, congrArg Prod.fst hread, by rwa [readItem, hread], hreads⟩
  groupRules := by
    have hat := at_cursor h
    have hsteps := hat.length_le
    obtain ⟨result, o, after, l', hread, hresult, hafter, hreads⟩ :=
      (follows config l.steps).2 depth l l.cursor [] [] hat (by omega)
    exact ⟨o, after, by rwa [readGroup, hread], by rwa [readGroup, hread], hreads⟩
  allRules := by
    obtain ⟨result, after, l', hread, hafter, hreads⟩ := (at_cursor h).readAll config depth
    exact ⟨after, by rwa [hread], by rwa [hread]⟩

/-- Reading a program comes to the end of the input for good, unless too many readers would be at
work inside of each other. -/
theorem exhausted_readAll (h : l.source.ending = .quiet) {config : Config} {depth : Nat}
    (hfits : Machine.Fits config depth ⟨l.cursor, .top .empty⟩) :
    (l.readAll config depth).1 ≠ .error .tooDeep ∧
      (l.readAll config depth).2.Exhausted config := by
  obtain ⟨hok, -⟩ := ((at_cursor h).collect config depth).fits hfits
  rcases hcollect : l.collect config depth with ⟨result, l'⟩
  rw [hcollect] at hok
  obtain rfl : result = .ok _ := hok
  have hend := atEnd_of_collectIn (Nat.le_refl _) (by rw [steps]; omega) hcollect
  rw [readAll_eq_collect, hcollect]
  exact ⟨Scope.program_ne_tooDeep _, hend.exhausted config⟩

/-! ### Every reachable state -/

/-- What there is to say of a lexer about how far its readers get. -/
structure Progresses (config : Config) (depth : Nat) (l : Lexer) : Prop where
  item : GetsOn config depth .inputEnd l (l.readItem config depth)
  token : GetsOn config depth none l (l.readToken config depth)
  loops : LoopsEnd config depth l
  fits (h : Machine.Fits config depth ⟨l.cursor, .top .empty⟩) :
    (l.readAll config depth).1 ≠ .error .tooDeep ∧ (l.readAll config depth).2.Exhausted config
  tooDeep (h : ¬ Machine.Fits config depth ⟨l.cursor, .top .empty⟩) :
    (l.readAll config depth).1 = .error .tooDeep
  short (h : 2 * l.cursor.rest.length < depth) :
    Machine.Fits config depth ⟨l.cursor, .top .empty⟩

/-- Whatever was asked of a lexer before, as long as its source does not fail: every item, and every
rejection, takes at least one character, and where there is none the end of the input is reached for
good. So the loops end, and a program is read to its end, unless it is nested too deeply. -/
theorem readers_progress (config : Config) (depth : Nat) {source : Source}
    (hquiet : source.ending = .quiet) (ops : List Operation) :
    Progresses config depth ((Session.start source).run config depth ops).2.lexer := by
  have h := (keeps_quiet config).run depth ops (s := Session.start source) hquiet
  refine ⟨getsOn_readItem h config depth, getsOn_readToken h config depth, loopsEnd h config depth,
    exhausted_readAll h, ((at_cursor h).readAll_final config depth).2, fun hshort => ?_⟩
  refine Machine.fits_of_length ?_
  simp only [Stack.height]
  omega

/-- In the middle of a group, behind a definition that the group end delimiter cuts short, and
before a group and a number that the end of the input cuts short. -/
theorem readers_progress_open :
    let source := Source.ofText ['(', '$', 'a', ')', '(', '#'] .quiet
    let l := ((Session.start source).run .standard nestingLimit [.next, .readToken]).2.lexer
    let last := (l.readAll .standard nestingLimit).2
    source.ending = .quiet ∧ l.cursor.rest = ['(', '#'] ∧
      last.lookahead.toList ++ last.source.left = [] := by
  intro source l last
  have hrest : l.cursor.rest = ['(', '#'] := rfl
  have hprogresses : Progresses .standard nestingLimit l :=
    readers_progress .standard nestingLimit rfl [.next, .readToken]
  have hfits := hprogresses.short (by rw [hrest]; decide)
  exact ⟨rfl, hrest, (hprogresses.fits hfits).2.left⟩

end Lexer

/-! ### Where reading stops short -/

/-- Of groups inside of each other no more is read than there are readers for. -/
theorem Reads.tooDeep_of_groupStart {config : Config} {m : MacroTable} {c : Char}
    (h : Acts config m c (some .groupStart)) {n d : Nat} (hd : d ≤ 2 * n) {s : List Char}
    {p : Position} {o : Outcome} {after : Cursor}
    (hreads : Reads config .item d ⟨List.replicate n c ++ s, p, m⟩ o after) :
    o = .tooDeep ∧ s <:+ after.rest := by
  induction n generalizing d p o after with
  | zero =>
    obtain rfl : d = 0 := by omega
    cases hreads
    exact ⟨rfl, List.suffix_refl s⟩
  | succ n ih =>
    rw [List.replicate_succ, List.cons_append] at hreads
    generalize htext : List.replicate n c ++ s = text at hreads
    have hsuffix : s <:+ text := htext ▸ List.suffix_append (List.replicate n c) s
    cases hreads with
    | tooDeep => exact ⟨rfl, hsuffix.trans (List.suffix_cons c text)⟩
    | group _ inner =>
      subst htext
      cases inner with
      | tooDeep => exact ⟨rfl, hsuffix⟩
      | groupTooDeep item => exact ih (by omega) item
      | groupToken item | groupRejected item | groupClosed item | groupUnclosed item =>
        exact absurd (ih (by omega) item).1 (by simp)
    | bound hbound => simp [h.unbound] at hbound
    | skip hacts | operator hacts | groupEnd hacts | escape hacts | escapeNothing hacts
    | number hacts | definitionTooDeep hacts | symbolMissing hacts | bodyMissing hacts
    | bodyAbandoned hacts | bodyRejected hacts | bodyTooDeep hacts | definition hacts =>
      exact absurd (h.role.symm.trans hacts.role) (by simp)

/-- Where groups are nested too deeply, reading ends with characters left. -/
theorem Lexer.readAll_leaves_groups :
    let text := List.replicate 4000 '(' ++ '+' :: List.replicate 4000 ')'
    let whole := (ofText text).readAll .standard nestingLimit
    whole.1 = .error .tooDeep ∧ whole.2.lookahead.toList ++ whole.2.source.left ≠ [] := by
  intro text whole
  have hacts : Acts .standard .empty '(' (some .groupStart) := ⟨rfl, rfl⟩
  have hdepth : nestingLimit ≤ 2 * 4000 := by decide
  obtain ⟨result, after, l, hread, hat, hall⟩ := (at_ofText text).readAll .standard nestingLimit
  have hwhole : whole = (result, l) := hread
  rw [hwhole, hat.rest]
  cases hall with
  | tooDeep item =>
    obtain ⟨-, hsuffix⟩ := Reads.tooDeep_of_groupStart hacts hdepth item
    exact ⟨rfl, (hsuffix.ne_nil (List.cons_ne_nil _ _))⟩
  | token item | rejected item | unopened item | inputEnd item =>
    exact absurd (Reads.tooDeep_of_groupStart hacts hdepth item).1 (by simp)

end Unroll
