import Unroll.Proofs.Numbers

/-!
# The characters that are left

Chunks, buffers and lookahead do not matter to the lexer: all that matters of a source are the
characters that it has left, and how it ends.

* `Source.left`, `Source.ending` — what a source has left;
* `Cursor` — what a lexer has left, the position it has reached, and its macros;
* `Lexer.Stands`, `Lexer.At` — the lexer stands at a cursor, before an input that ends in a certain
  way, or one that does not fail;
* `Lexer.Stands.next_cons`, `Lexer.At.next_nil`, `Lexer.Stands.next_fault` — the next character at a
  cursor;
* `Lexer.Stands.numberIn`, `Lexer.Stands.numberIn_fault` — the number after a number prefix is that
  of the longest run of digits, if its end is found.
-/

namespace Unroll

/-! ### Sources -/

/-- A read of a stream that has characters left gives at least one. -/
theorem Stream.read_cons {stream : Stream} {size : Int} {c : Char} {rest : List Char}
    (hsize : size ≠ 0) (h : stream.chars = c :: rest) :
    ∃ chunk after, stream.read size = (.ok (c :: chunk), after) ∧
      chunk ++ after.chars = rest ∧ after.ending = stream.ending := by
  by_cases hneg : size < 0
  · exact ⟨rest, { stream with chars := [] }, by simp [read, hsize, h, hneg], by simp, rfl⟩
  · obtain ⟨n, hn⟩ : ∃ n, size.toNat = n + 1 := ⟨size.toNat - 1, by omega⟩
    refine ⟨rest.take n, { stream with chars := rest.drop n }, ?_, by simp, rfl⟩
    simp [read, hsize, h, hneg, hn]

namespace Source

/-- The characters that a source has left. Reading pieces of no characters never gets at those
of the stream. -/
def left (source : Source) : List Char :=
  if source.finished ∨ source.chunk = 0 then source.buffer
  else source.buffer ++ source.stream.chars

/-- What comes after the characters that a source has left. -/
def ending (source : Source) : Ending :=
  if source.finished ∨ source.chunk = 0 then .quiet else source.stream.ending

theorem left_ofText (text : List Char) (ending : Ending) : (ofText text ending).left = text := by
  simp [left, ofText]

theorem ending_ofText (text : List Char) (ending : Ending) :
    (ofText text ending).ending = ending := by
  simp [Source.ending, ofText]

theorem left_ofStream (stream : Stream) : (ofStream stream chunkSize).left = stream.chars := by
  simp [left, ofStream, chunkSize]

theorem ending_ofStream (stream : Stream) :
    (ofStream stream chunkSize).ending = stream.ending := by
  simp [ending, ofStream, chunkSize]

theorem length_left_le (source : Source) : source.left.length ≤ source.size := by
  rw [left, size]
  split
  · exact Nat.le_add_right ..
  · exact Nat.le_of_eq List.length_append

/-- A source that has characters left gives the first of them. -/
theorem pull_cons {source : Source} {c : Char} {rest : List Char} (h : source.left = c :: rest) :
    ∃ after, source.pull = (.ok (some c), after) ∧ after.left = rest ∧
      after.ending = source.ending := by
  obtain ⟨buffer, stream, chunk, reads, finished⟩ := source
  cases buffer with
  | cons d buffer =>
    by_cases hend : finished = true ∨ chunk = 0
    · simp only [left, if_pos hend, List.cons.injEq] at h
      obtain ⟨rfl, rfl⟩ := h
      exact ⟨_, rfl, if_pos hend, rfl⟩
    · simp only [left, if_neg hend, List.cons_append, List.cons.injEq] at h
      obtain ⟨rfl, rfl⟩ := h
      exact ⟨_, rfl, if_neg hend, rfl⟩
  | nil =>
    -- the buffer is used up, so that there are characters only in the stream
    by_cases hend : finished = true ∨ chunk = 0
    · simp only [left, if_pos hend] at h
      cases h
    · simp only [left, if_neg hend, List.nil_append] at h
      obtain ⟨hfin, hchunk⟩ := not_or.1 hend
      obtain ⟨piece, after, hread, hrest, hending⟩ := Stream.read_cons hchunk h
      refine ⟨⟨piece, after, chunk, reads + 1, finished⟩, ?_, ?_, ?_⟩
      · simp only [pull, if_neg hfin, hread]
      · simpa only [left, if_neg hend] using hrest
      · simpa only [ending, if_neg hend] using hending

/-- At its end a source that does not fail gives nothing, and stays there. -/
theorem pull_nil {source : Source} (h : source.left = []) (hquiet : source.ending = .quiet) :
    ∃ after, source.pull = (.ok none, after) ∧ after.left = [] ∧ after.ending = .quiet := by
  obtain ⟨buffer, ⟨chars, finish⟩, chunk, reads, finished⟩ := source
  obtain rfl : buffer = [] := by
    by_cases hend : finished = true ∨ chunk = 0
    · simpa only [left, if_pos hend] using h
    · simp only [left, if_neg hend, List.append_eq_nil_iff] at h
      exact h.1
  cases finished with
  | true => exact ⟨_, rfl, h, hquiet⟩
  | false =>
    by_cases hchunk : chunk = 0
    · subst hchunk
      exact ⟨_, rfl, rfl, rfl⟩
    · obtain rfl : chars = [] := by simpa [left, hchunk] using h
      obtain rfl : finish = .quiet := by simpa [ending, hchunk] using hquiet
      refine ⟨⟨[], ⟨[], .quiet⟩, chunk, reads + 1, true⟩, ?_, rfl, rfl⟩
      simp [pull, Stream.read, hchunk]

/-- At its end a source that fails gives its fault, and nothing more after that. -/
theorem pull_fault {source : Source} {f : Fault} (h : source.left = [])
    (hfault : source.ending = .fault f) :
    ∃ after, source.pull = (.error f, after) ∧ after.left = [] ∧ after.ending = .quiet := by
  obtain ⟨buffer, ⟨chars, finish⟩, chunk, reads, finished⟩ := source
  have hgoing : ¬(finished = true ∨ chunk = 0) := by
    intro hend
    rw [ending, if_pos hend] at hfault
    cases hfault
  rw [ending, if_neg hgoing] at hfault
  rw [left, if_neg hgoing, List.append_eq_nil_iff] at h
  obtain ⟨rfl, rfl⟩ := h
  obtain rfl : finish = .fault f := hfault
  obtain ⟨hfin, hchunk⟩ := not_or.1 hgoing
  refine ⟨⟨[], ⟨[], .fault f⟩, chunk, reads + 1, true⟩, ?_, rfl, rfl⟩
  simp [pull, Stream.read, hfin, hchunk]

/-- What a source gives is the first of the characters that it had left. -/
theorem left_of_pull {source after : Source} {c : Option Char}
    (h : source.pull = (.ok c, after)) : source.left = c.toList ++ after.left := by
  rcases hleft : source.left with _ | ⟨d, rest⟩
  · rcases hending : source.ending with _ | f
    · obtain ⟨after', hpull, hnil, -⟩ := pull_nil hleft hending
      rw [hpull, Prod.mk.injEq, Except.ok.injEq] at h
      obtain ⟨rfl, rfl⟩ := h
      rw [hnil, Option.toList_none, List.append_nil]
    · obtain ⟨after', hpull, -⟩ := pull_fault hleft hending
      rw [hpull] at h
      cases h
  · obtain ⟨after', hpull, hrest, -⟩ := pull_cons hleft
    rw [hpull, Prod.mk.injEq, Except.ok.injEq] at h
    obtain ⟨rfl, rfl⟩ := h
    rw [hrest, Option.toList_some, List.singleton_append]

/-- A source that fails has nothing left, before and after. -/
theorem left_of_pull_error {source after : Source} {f : Fault}
    (h : source.pull = (.error f, after)) : source.left = after.left := by
  rcases hleft : source.left with _ | ⟨d, rest⟩
  · rcases hending : source.ending with _ | f'
    · obtain ⟨after', hpull, -⟩ := pull_nil hleft hending
      rw [hpull] at h
      cases h
    · obtain ⟨after', hpull, hnil, -⟩ := pull_fault hleft hending
      rw [hpull, Prod.mk.injEq] at h
      rw [← h.2, hnil]
  · obtain ⟨after', hpull, -⟩ := pull_cons hleft
    rw [hpull] at h
    cases h

end Source

/-! ### Cursors -/

/-- What a lexer has left, the position it has reached, and the macros bound so far. -/
structure Cursor where
  rest : List Char
  position : Position
  macros : MacroTable

namespace Lexer

/-- The lexer stands at a cursor, before an input that ends in a certain way. -/
structure Stands (l : Lexer) (c : Cursor) (ending : Ending) : Prop where
  rest : l.lookahead.toList ++ l.source.left = c.rest
  position : l.position = c.position
  macros : l.macros = c.macros
  ending : l.source.ending = ending

/-- The lexer stands at a cursor, before an input that does not fail. -/
structure At (l : Lexer) (c : Cursor) : Prop where
  rest : l.lookahead.toList ++ l.source.left = c.rest
  position : l.position = c.position
  macros : l.macros = c.macros
  quiet : l.source.ending = .quiet

theorem At.stands {l : Lexer} {c : Cursor} (h : l.At c) : l.Stands c .quiet :=
  ⟨h.rest, h.position, h.macros, h.quiet⟩

theorem Stands.at {l : Lexer} {c : Cursor} (h : l.Stands c .quiet) : l.At c :=
  ⟨h.rest, h.position, h.macros, h.ending⟩

theorem stands_ofText (text : List Char) (e : Ending) :
    (ofSource (.ofText text e)).Stands ⟨text, .start, .empty⟩ e :=
  ⟨Source.left_ofText text e, rfl, rfl, Source.ending_ofText text e⟩

theorem stands_ofStream (stream : Stream) :
    (ofSource (.ofStream stream Source.chunkSize)).Stands ⟨stream.chars, .start, .empty⟩
      stream.ending :=
  ⟨Source.left_ofStream stream, rfl, rfl, Source.ending_ofStream stream⟩

theorem at_ofText (text : List Char) : (ofText text).At ⟨text, .start, .empty⟩ :=
  (stands_ofText text .quiet).at

theorem at_ofStream (text : List Char) :
    (ofSource (.ofStream ⟨text, .quiet⟩ Source.chunkSize)).At ⟨text, .start, .empty⟩ :=
  (stands_ofStream ⟨text, .quiet⟩).at

variable {l : Lexer} {c : Char} {s : List Char} {p : Position} {m : MacroTable} {e : Ending}
  {f : Fault}

/-- The steps that a lexer may take are enough for the characters that it has left. -/
theorem Stands.length_le {cursor : Cursor} (h : l.Stands cursor e) :
    2 * cursor.rest.length + 3 ≤ l.steps := by
  have hsize := l.source.length_left_le
  have hlength : cursor.rest.length = l.lookahead.toList.length + l.source.left.length := by
    rw [← h.rest, List.length_append]
  rw [steps, remaining]
  omega

theorem At.length_le {cursor : Cursor} (h : l.At cursor) :
    2 * cursor.rest.length + 3 ≤ l.steps :=
  h.stands.length_le

/-- Looking at the next character leaves the lexer where it stands. -/
theorem Stands.peek_cons (h : l.Stands ⟨c :: s, p, m⟩ e) :
    ∃ after, l.peek = (.ok (some c), after) ∧ after.Stands ⟨c :: s, p, m⟩ e ∧
      (after.consume c).Stands ⟨s, p.advance c, m⟩ e := by
  obtain ⟨source, lookahead, position, macros, log⟩ := l
  obtain ⟨hrest, rfl, rfl, hend⟩ := h
  cases lookahead with
  | some d =>
    obtain ⟨rfl, hleft⟩ := List.cons.inj hrest
    exact ⟨_, rfl, ⟨hrest, rfl, rfl, hend⟩, ⟨hleft, rfl, rfl, hend⟩⟩
  | none =>
    have hsource : source.left = c :: s := hrest
    obtain ⟨after, hpull, hleft, hending⟩ := Source.pull_cons hsource
    refine ⟨⟨after, some c, position, macros, log⟩, ?_, ?_, ?_⟩
    · simp only [peek, hpull]
    · exact ⟨congrArg (c :: ·) hleft, rfl, rfl, hending.trans hend⟩
    · exact ⟨hleft, rfl, rfl, hending.trans hend⟩

/-- At the end there is no character to look at. -/
theorem At.peek_nil (h : l.At ⟨[], p, m⟩) :
    ∃ after, l.peek = (.ok none, after) ∧ after.At ⟨[], p, m⟩ := by
  obtain ⟨source, lookahead, position, macros, log⟩ := l
  obtain ⟨hrest, rfl, rfl, hquiet⟩ := h
  cases lookahead with
  | some d => cases hrest
  | none =>
    have hsource : source.left = [] := hrest
    obtain ⟨after, hpull, hleft, hending⟩ := Source.pull_nil hsource hquiet
    refine ⟨⟨after, none, position, macros, log⟩, ?_, hleft, rfl, rfl, hending⟩
    simp only [peek, hpull]

/-- Where the input fails there is no character to look at either. After that it does not fail any
more. -/
theorem Stands.peek_fault (h : l.Stands ⟨[], p, m⟩ (.fault f)) :
    ∃ after, l.peek = (.error f, after) ∧ after.At ⟨[], p, m⟩ := by
  obtain ⟨source, lookahead, position, macros, log⟩ := l
  obtain ⟨hrest, rfl, rfl, hfault⟩ := h
  cases lookahead with
  | some d => cases hrest
  | none =>
    have hsource : source.left = [] := hrest
    obtain ⟨after, hpull, hleft, hending⟩ := Source.pull_fault hsource hfault
    refine ⟨⟨after, none, position, macros, log⟩, ?_, hleft, rfl, rfl, hending⟩
    simp only [peek, hpull]

theorem Stands.next_cons (h : l.Stands ⟨c :: s, p, m⟩ e) :
    ∃ after, l.next = (.ok (some c), after) ∧ after.Stands ⟨s, p.advance c, m⟩ e := by
  obtain ⟨after, hpeek, -, hafter⟩ := h.peek_cons
  refine ⟨after.consume c, ?_, hafter⟩
  simp only [next, hpeek]

theorem At.next_cons (h : l.At ⟨c :: s, p, m⟩) :
    ∃ after, l.next = (.ok (some c), after) ∧ after.At ⟨s, p.advance c, m⟩ := by
  obtain ⟨after, hnext, hafter⟩ := h.stands.next_cons
  exact ⟨after, hnext, hafter.at⟩

theorem At.next_nil (h : l.At ⟨[], p, m⟩) :
    ∃ after, l.next = (.ok none, after) ∧ after.At ⟨[], p, m⟩ := by
  obtain ⟨after, hpeek, hafter⟩ := h.peek_nil
  refine ⟨after, ?_, hafter⟩
  simp only [next, hpeek]

theorem Stands.next_fault (h : l.Stands ⟨[], p, m⟩ (.fault f)) :
    ∃ after, l.next = (.error f, after) ∧ after.At ⟨[], p, m⟩ := by
  obtain ⟨after, hpeek, hafter⟩ := h.peek_fault
  refine ⟨after, ?_, hafter⟩
  simp only [next, hpeek]

/-! ### Digits -/

/-- At a cursor, all the digits that stand next are taken, if the end of the run is found. -/
theorem Stands.takeDigits {steps : Nat} (h : l.Stands ⟨s, p, m⟩ e) (hsteps : s.length < steps)
    (hends : e = .quiet ∨ s.dropWhile isDigit ≠ []) (done : List Char) :
    ∃ after, Lexer.takeDigits steps done l = (.ok (done.reverse ++ s.takeWhile isDigit), after) ∧
      after.Stands ⟨s.dropWhile isDigit, p.advanceBy (s.takeWhile isDigit), m⟩ e := by
  induction s generalizing l p steps done with
  | nil =>
    obtain ⟨steps, rfl⟩ : ∃ n, steps = n + 1 := ⟨steps - 1, by omega⟩
    obtain rfl : e = .quiet := hends.resolve_right fun hne => hne rfl
    obtain ⟨after, hpeek, hafter⟩ := h.at.peek_nil
    refine ⟨after, ?_, hafter.stands⟩
    simp only [Lexer.takeDigits, hpeek, List.takeWhile_nil, List.append_nil]
  | cons c s ih =>
    obtain ⟨steps, rfl⟩ : ∃ n, steps = n + 1 := ⟨steps - 1, by omega⟩
    obtain ⟨peeked, hpeek, hpeeked, hconsumed⟩ := h.peek_cons
    by_cases hc : isDigit c = true
    · rw [List.dropWhile_cons_of_pos hc] at hends
      obtain ⟨after, htake, hafter⟩ := ih hconsumed (by simpa using hsteps) hends (c :: done)
      rw [List.takeWhile_cons_of_pos hc, List.dropWhile_cons_of_pos hc]
      refine ⟨after, ?_, hafter⟩
      simp only [Lexer.takeDigits, hpeek, if_pos hc, htake, List.reverse_cons, List.append_assoc,
        List.cons_append, List.nil_append]
    · rw [List.takeWhile_cons_of_neg hc, List.dropWhile_cons_of_neg hc]
      refine ⟨peeked, ?_, hpeeked⟩
      simp only [Lexer.takeDigits, hpeek, if_neg hc, List.append_nil]

/-- Where the input fails behind digits, the digits are consumed and none are taken. -/
theorem Stands.takeDigits_fault {steps : Nat} (h : l.Stands ⟨s, p, m⟩ (.fault f))
    (hsteps : s.length < steps) (hrun : s.dropWhile isDigit = []) (done : List Char) :
    ∃ after, Lexer.takeDigits steps done l = (.error f, after) ∧
      after.At ⟨[], p.advanceBy s, m⟩ := by
  induction s generalizing l p steps done with
  | nil =>
    obtain ⟨steps, rfl⟩ : ∃ n, steps = n + 1 := ⟨steps - 1, by omega⟩
    obtain ⟨after, hpeek, hafter⟩ := h.peek_fault
    refine ⟨after, ?_, hafter⟩
    simp only [Lexer.takeDigits, hpeek]
  | cons c s ih =>
    obtain ⟨steps, rfl⟩ : ∃ n, steps = n + 1 := ⟨steps - 1, by omega⟩
    obtain ⟨peeked, hpeek, -, hconsumed⟩ := h.peek_cons
    by_cases hc : isDigit c = true
    · rw [List.dropWhile_cons_of_pos hc] at hrun
      obtain ⟨after, htake, hafter⟩ := ih hconsumed (by simpa using hsteps) hrun (c :: done)
      refine ⟨after, ?_, hafter⟩
      simp only [Lexer.takeDigits, hpeek, if_pos hc, htake]
    · rw [List.dropWhile_cons_of_neg hc] at hrun
      cases hrun

/-- What the digits after a number prefix at `position` are, if there are any and their value is
not too large. -/
def numeral (config : Config) (position : Position) (digits : List Char) :
    Except Rejection Token :=
  if digits = [] then .error (.diagnostic ⟨position, numberMissing config⟩)
  else if digitsValue digits ≤ maxNumber then .ok (.number (digitsValue digits))
  else .error (.diagnostic ⟨position, numberOverflow config digits⟩)

/-- At a cursor, the number that is read is that of all the digits that stand next, if the end of
the run is found. -/
theorem Stands.numberIn {steps : Nat} (h : l.Stands ⟨s, p, m⟩ e) (config : Config)
    (hsteps : s.length < steps) (hends : e = .quiet ∨ s.dropWhile isDigit ≠ []) :
    ∃ after, Lexer.numberIn config steps l =
        ((numeral config p (s.takeWhile isDigit)).mapError .rejected, after) ∧
      after.Stands ⟨s.dropWhile isDigit, p.advanceBy (s.takeWhile isDigit), m⟩ e := by
  obtain ⟨after, htake, hafter⟩ := h.takeDigits hsteps hends []
  refine ⟨after, ?_, hafter⟩
  have hposition : l.position = p := h.position
  -- the shortcut for long runs is only right for digits
  have hdigits := isDigit_of_mem_takeWhile (s := s)
  simp only [List.reverse_nil, List.nil_append] at htake
  cases hrun : s.takeWhile isDigit with
  | nil =>
    rw [hrun] at htake
    simp only [Lexer.numberIn, htake, numeral, reject, rejectAt, hposition, if_true]
    rfl
  | cons d ds =>
    rw [hrun] at htake hdigits
    simp only [Lexer.numberIn, htake, numeral, reject, rejectAt, hposition,
      boundedValue?_eq hdigits]
    by_cases hle : digitsValue (d :: ds) ≤ maxNumber
    · simp only [if_pos hle, if_neg (List.cons_ne_nil d ds)]
      rfl
    · simp only [if_neg hle, if_neg (List.cons_ne_nil d ds)]
      rfl

theorem At.numberIn {steps : Nat} (h : l.At ⟨s, p, m⟩) (config : Config)
    (hsteps : s.length < steps) :
    ∃ after, Lexer.numberIn config steps l =
        ((numeral config p (s.takeWhile isDigit)).mapError .rejected, after) ∧
      after.At ⟨s.dropWhile isDigit, p.advanceBy (s.takeWhile isDigit), m⟩ := by
  obtain ⟨after, hread, hafter⟩ := h.stands.numberIn config hsteps (.inl rfl)
  exact ⟨after, hread, hafter.at⟩

/-- Where the input fails behind digits, no number is read. -/
theorem Stands.numberIn_fault {steps : Nat} (h : l.Stands ⟨s, p, m⟩ (.fault f)) (config : Config)
    (hsteps : s.length < steps) (hrun : s.dropWhile isDigit = []) :
    ∃ after, Lexer.numberIn config steps l = (.error (.input f), after) ∧
      after.At ⟨[], p.advanceBy s, m⟩ := by
  obtain ⟨after, htake, hafter⟩ := h.takeDigits_fault hsteps hrun []
  refine ⟨after, ?_, hafter⟩
  simp only [Lexer.numberIn, htake]

end Lexer

end Unroll
