import Unroll.Proofs.Lockstep
import Unroll.Proofs.Progress

/-!
# Chunks

Streams are read in chunks, while characters are handed out one at a time. Where one chunk ends and
the next begins cannot be told: a source is known by the characters that it has left and by how it
ends.

* `Ending.met`, `Source.pull_eq` — what a source gives next;
* `Source.pulls`, `Source.pulls_eq` — what it gives when it is asked again and again;
* `Source.readsLeft`, `Source.reads_pull` — how often its stream is still read;
* `Source.Alike`, `Lexer.Indistinct`, `Lexer.parallel_indistinct` — sources, and lexers, that differ
  in their chunks only;
* `Lexer.Session.runResuming_of_shallow` — a source is only broken off by a nesting error;
* `chunks_invisible` — chunks are invisible, up to the first nesting error;
* `chunks_not_invisible` — after one they may be told.
-/

namespace Unroll

/-- What is met at the end: nothing, or a fault. -/
def Ending.met : Ending → Except Fault (Option Char)
  | quiet => .ok none
  | fault f => .error f

namespace Source

/-! ### What a source gives -/

/-- A source gives the first character that it has left. At its end it gives what is met there, and
after that nothing more. -/
theorem pull_eq (source : Source) :
    source.pull.1 = source.left.head?.elim source.ending.met (fun c => .ok (some c)) ∧
      source.pull.2.left = source.left.tail ∧
      source.pull.2.ending = if source.left = [] then .quiet else source.ending := by
  rcases hleft : source.left with _ | ⟨c, rest⟩
  · rcases hending : source.ending with _ | f
    · obtain ⟨after, hpull, hnil, hquiet⟩ := pull_nil hleft hending
      rw [hpull]
      exact ⟨rfl, hnil, hquiet⟩
    · obtain ⟨after, hpull, hnil, hquiet⟩ := pull_fault hleft hending
      rw [hpull]
      exact ⟨rfl, hnil, hquiet⟩
  · obtain ⟨after, hpull, hrest, hsame⟩ := pull_cons hleft
    rw [hpull]
    exact ⟨rfl, hrest, hsame⟩

/-- What a source gives when it is asked `n` times. -/
def pulls : (n : Nat) → Source → List (Except Fault (Option Char)) × Source
  | 0, source => ([], source)
  | n + 1, source =>
    let (first, source) := source.pull
    let (others, source) := pulls n source
    (first :: others, source)

theorem pulls_succ (n : Nat) (source : Source) :
    pulls (n + 1) source =
      (source.pull.1 :: (pulls n source.pull.2).1, (pulls n source.pull.2).2) :=
  rfl

theorem pulls_add (m n : Nat) (source : Source) :
    pulls (m + n) source =
      ((pulls m source).1 ++ (pulls n (pulls m source).2).1, (pulls n (pulls m source).2).2) := by
  induction m generalizing source with
  | zero => rw [Nat.zero_add, pulls, List.nil_append]
  | succ m ih => rw [Nat.add_right_comm, pulls_succ, ih, pulls_succ, List.cons_append]

/-- A source gives all the characters that it has left before it comes to its end. -/
theorem pulls_left (source : Source) :
    (pulls source.left.length source).1 = source.left.map (fun c => .ok (some c)) ∧
      (pulls source.left.length source).2.left = [] ∧
      (pulls source.left.length source).2.ending = source.ending := by
  rcases hchars : source.left with _ | ⟨c, rest⟩
  · exact ⟨rfl, hchars, rfl⟩
  induction rest generalizing source c with
  | nil =>
    obtain ⟨hfirst, hleft, hending⟩ := source.pull_eq
    rw [hchars] at hfirst hleft hending
    exact ⟨congrArg (· :: []) hfirst, hleft, hending⟩
  | cons d rest ih =>
    obtain ⟨hfirst, hleft, hending⟩ := source.pull_eq
    rw [hchars] at hfirst hleft hending
    obtain ⟨hothers, hnil, hsame⟩ := ih source.pull.2 d hleft
    exact ⟨congrArg₂ List.cons hfirst hothers, hnil, hsame.trans hending⟩

/-- All characters are those that the source has left, unless it fails. -/
theorem drainOnto_eq {steps : Nat} (done : List Char) {source : Source}
    (hquiet : source.ending = .quiet) (hsteps : source.left.length < steps) :
    drainOnto done steps source =
      (.ok (done.reverse ++ source.left), (pulls (source.left.length + 1) source).2) := by
  induction steps generalizing done source with
  | zero => exact absurd hsteps (Nat.not_lt_zero _)
  | succ steps ih =>
    obtain ⟨hfirst, hrest, hending⟩ := source.pull_eq
    rcases hpull : source.pull with ⟨first, after⟩
    rw [hpull] at hfirst hrest hending
    rcases hleft : source.left with _ | ⟨c, rest⟩
    · rw [hleft, hquiet] at hfirst
      obtain rfl : first = .ok none := hfirst
      simp only [drainOnto, hpull, List.append_nil, List.length_nil, pulls_succ]
      rfl
    · rw [hleft] at hfirst hrest hending hsteps
      obtain rfl : first = .ok (some c) := hfirst
      obtain rfl : after.left = rest := hrest
      rw [if_neg (List.cons_ne_nil _ _), hquiet] at hending
      simp only [drainOnto, hpull, ih (c :: done) hending (Nat.lt_of_succ_lt_succ hsteps),
        List.reverse_cons, List.append_assoc, List.singleton_append, List.length_cons]
      rw [pulls_succ (after.left.length + 1), hpull]

/-! ### How often the stream is read -/

/-- The number of pieces in which so many characters are read, if at most `chunk` are read at a
time, or all of them where that is negative. -/
def pieces (chunk : Int) (length : Nat) : Nat :=
  if 0 < chunk then (length + chunk.toNat - 1) / chunk.toNat else if length = 0 then 0 else 1

theorem pieces_zero {chunk : Int} : pieces chunk 0 = 0 := by
  rw [pieces]
  split
  · exact Nat.div_eq_of_lt (by omega)
  · rfl

/-- A piece that is read is one less that is left. -/
theorem pieces_sub {chunk : Int} (hpos : 0 < chunk) {length : Nat} (hlength : length ≠ 0) :
    pieces chunk (length - chunk.toNat) + 1 = pieces chunk length := by
  obtain ⟨k, hk⟩ : ∃ k, chunk.toNat = k + 1 := ⟨chunk.toNat - 1, by omega⟩
  simp only [pieces, if_pos hpos, hk]
  rcases Nat.le_total length (k + 1) with hle | hle
  · -- the last piece, which need not be full
    have hnone : (length - (k + 1) + (k + 1) - 1) / (k + 1) = 0 :=
      Nat.div_eq_of_lt (by omega)
    have hone : (length + (k + 1) - 1) / (k + 1) = 1 :=
      Nat.div_eq_of_lt_le (by omega) (by omega)
    rw [hnone, hone]
  · rw [← Nat.add_div_right _ (Nat.succ_pos k)]
    congr 1
    omega

/-- How often the stream of a source is still read: once for every piece, and once more to find
nothing, or a fault. -/
def readsLeft (source : Source) : Nat :=
  if source.finished then 0 else pieces source.chunk source.stream.chars.length + 1

/-- A read of a stream that has characters left takes one piece of them. -/
theorem pieces_of_read {stream after : Stream} {size : Int}
    {result : Except Fault (List Char)} (hsize : size ≠ 0) (hne : stream.chars ≠ [])
    (h : stream.read size = (result, after)) :
    (∃ c rest, result = .ok (c :: rest)) ∧
      pieces size after.chars.length + 1 = pieces size stream.chars.length := by
  obtain ⟨c, chars, hchars⟩ := List.exists_cons_of_ne_nil hne
  obtain ⟨rest, after', hread, -⟩ := Stream.read_cons hsize hchars
  rw [h] at hread
  refine ⟨⟨c, rest, (Prod.mk.inj hread).1⟩, ?_⟩
  rcases Int.lt_or_lt_of_ne hsize with hneg | hpos
  · have hall : after.chars = [] := by
      rw [Stream.read, if_neg hsize] at h
      split at h
      · exact absurd ‹_› hne
      · exact absurd ‹_› hne
      · rw [if_pos hneg] at h
        rw [← (Prod.mk.inj h).2]
    rw [hall, List.length_nil, pieces_zero, pieces, if_neg (Int.not_lt.2 (Int.le_of_lt hneg)),
      if_neg (mt List.length_eq_zero_iff.1 hne)]
  · have hdrop : after.chars = stream.chars.drop size.toNat := by
      rw [Stream.read, if_neg hsize] at h
      split at h
      · exact absurd ‹_› hne
      · exact absurd ‹_› hne
      · rw [if_neg (Int.not_lt.2 (Int.le_of_lt hpos))] at h
        rw [← (Prod.mk.inj h).2]
    rw [hdrop, List.length_drop, pieces_sub hpos (mt List.length_eq_zero_iff.1 hne)]

/-- The end of a stream is found by one more read. -/
theorem pull_of_used {source : Source} (hchunk : source.chunk ≠ 0) (hbuffer : source.buffer = [])
    (hgoing : source.finished = false) (hchars : source.stream.chars = []) :
    source.pull.2.finished = true ∧ source.pull.2.reads = source.reads + 1 ∧
      source.pull.2.chunk = source.chunk := by
  obtain ⟨buffer, ⟨chars, finish⟩, chunk, reads, finished⟩ := source
  obtain rfl : buffer = [] := hbuffer
  obtain rfl : finished = false := hgoing
  obtain rfl : chars = [] := hchars
  have hsize : ¬ chunk = 0 := hchunk
  cases finish with
  | quiet => simp [pull, Stream.read, hsize]
  | fault f => simp [pull, Stream.read, hsize]

/-- What a source gives is paid for with the reads that are left, if anything is read at a time. -/
theorem reads_pull {source : Source} (hchunk : source.chunk ≠ 0) :
    source.pull.2.reads + source.pull.2.readsLeft = source.reads + source.readsLeft ∧
      source.pull.2.chunk = source.chunk := by
  obtain ⟨buffer, stream, chunk, reads, finished⟩ := source
  cases buffer with
  | cons c buffer => exact ⟨rfl, rfl⟩
  | nil =>
    cases finished with
    | true => exact ⟨rfl, rfl⟩
    | false =>
      by_cases hne : stream.chars = []
      · obtain ⟨hfinished, hreads, hsame⟩ := pull_of_used hchunk rfl rfl hne
        rw [readsLeft, if_pos hfinished, hreads, readsLeft, if_neg Bool.false_ne_true]
        simp only [hne, List.length_nil, pieces_zero]
        exact ⟨trivial, hsame⟩
      · rcases hread : stream.read chunk with ⟨result, after⟩
        obtain ⟨⟨c, rest, rfl⟩, hpiece⟩ := pieces_of_read hchunk hne hread
        simp only [pull, hread, readsLeft, Bool.false_eq_true, if_false, ← hpiece]
        exact ⟨by omega, trivial⟩

theorem reads_pulls (n : Nat) {source : Source} (hchunk : source.chunk ≠ 0) :
    (pulls n source).2.reads + (pulls n source).2.readsLeft = source.reads + source.readsLeft ∧
      (pulls n source).2.chunk = source.chunk := by
  induction n generalizing source with
  | zero => exact ⟨rfl, rfl⟩
  | succ n ih =>
    obtain ⟨hreads, hsame⟩ := reads_pull hchunk
    rw [← hsame] at hchunk
    obtain ⟨hrest, hstill⟩ := ih hchunk
    exact ⟨hrest.trans hreads, hstill.trans hsame⟩

/-- A source that has nothing left is finished as soon as it is asked. -/
theorem finished_pull {source : Source} (hchunk : source.chunk ≠ 0) (h : source.left = []) :
    source.pull.2.finished = true := by
  rw [left] at h
  split at h
  · rename_i hend
    have hfinished : source.finished = true := hend.resolve_right hchunk
    rw [pull, h]
    simp only [hfinished, if_true]
  · rename_i hgoing
    obtain ⟨hbuffer, hchars⟩ := List.append_eq_nil_iff.1 h
    exact (pull_of_used hchunk hbuffer (Bool.eq_false_iff.2 (not_or.1 hgoing).1) hchars).1

theorem pull_of_finished {source : Source} (hfinished : source.finished = true)
    (h : source.left = []) : source.pull = (.ok none, source) := by
  rw [left, if_pos (.inl hfinished)] at h
  rw [pull, h]
  simp only [hfinished, if_true]

/-- A source that is finished gives nothing more, and stays as it is. -/
theorem pulls_of_finished (n : Nat) {source : Source} (hfinished : source.finished = true)
    (h : source.left = []) : pulls n source = (List.replicate n (.ok none), source) := by
  induction n with
  | zero => rfl
  | succ n ih =>
    rw [pulls_succ, pull_of_finished hfinished h, ih]
    rfl

/-- A source that is asked again and again gives the characters that it has left, then what is met
at its end, and then nothing. It is finished once it has come to its end. -/
theorem pulls_eq {source : Source} (hchunk : source.chunk ≠ 0) (n : Nat) :
    pulls (source.left.length + 1 + n) source =
        (source.left.map (fun c => .ok (some c)) ++
          source.ending.met :: List.replicate n (.ok none),
        (pulls (source.left.length + 1) source).2) ∧
      (pulls (source.left.length + 1) source).2.finished = true := by
  obtain ⟨hchars, hleft, hending⟩ := source.pulls_left
  obtain ⟨-, hsame⟩ := reads_pulls source.left.length hchunk
  rw [pulls_add _ n, pulls_add _ 1, hchars]
  generalize (pulls source.left.length source).2 = last at hleft hending hsame
  obtain ⟨hmet, hnil, -⟩ := last.pull_eq
  rw [hleft] at hmet hnil
  have hfinished := finished_pull (hsame ▸ hchunk) hleft
  have hlast : pulls 1 last = ([source.ending.met], last.pull.2) := by
    rw [pulls_succ, hmet, ← hending]
    rfl
  rw [hlast, pulls_of_finished n hfinished hnil, List.append_assoc]
  exact ⟨rfl, hfinished⟩

/-- Until a source is finished its stream is read as often as was left. -/
theorem reads_finished {source : Source} (hchunk : source.chunk ≠ 0) :
    (pulls (source.left.length + 1) source).2.reads = source.reads + source.readsLeft := by
  obtain ⟨hreads, -⟩ := reads_pulls (source.left.length + 1) hchunk
  obtain ⟨-, hfinished⟩ := pulls_eq hchunk 0
  rwa [readsLeft, if_pos hfinished, Nat.add_zero] at hreads

/-! ### Sources that differ in their chunks -/

/-- Two sources have the same characters left, and end in the same way. -/
structure Alike (source source' : Source) : Prop where
  left : source'.left = source.left
  ending : source'.ending = source.ending
  size : source'.size = source.size

theorem Alike.pull {source source' : Source} (h : Alike source source') :
    source'.pull.1 = source.pull.1 ∧ Alike source.pull.2 source'.pull.2 := by
  obtain ⟨hfirst, hleft, hending⟩ := source.pull_eq
  obtain ⟨hfirst', hleft', hending'⟩ := source'.pull_eq
  rw [h.left, h.ending] at hfirst' hending'
  rw [h.left] at hleft'
  have hsame : source'.pull.1 = source.pull.1 := hfirst'.trans hfirst.symm
  have hsize : source.size = (source.pull.1.toOption.join).toList.length + source.pull.2.size :=
    size_of_pull rfl
  have hsize' :
      source'.size = (source'.pull.1.toOption.join).toList.length + source'.pull.2.size :=
    size_of_pull rfl
  rw [hsame, h.size] at hsize'
  exact ⟨hsame, hleft'.trans hleft.symm, hending'.trans hending.symm, by omega⟩

theorem alike_ofStream (text : List Char) (ending : Ending) {k : Int} (hk : k ≠ 0) :
    Alike (.ofText text ending) (.ofStream ⟨text, ending⟩ k) where
  left := by simp [left, ofStream, ofText, hk]
  ending := by simp [Source.ending, ofStream, ofText, hk]
  size := by simp [size, ofStream, ofText]

end Source

/-! ### Lexers that differ in their chunks -/

namespace Lexer

/-- Two lexers are in the same state but for the chunks of their sources. -/
structure Indistinct (l l' : Lexer) : Prop where
  lookahead : l'.lookahead = l.lookahead
  position : l'.position = l.position
  macros : l'.macros = l.macros
  log : l'.log = l.log
  source : l.source.Alike l'.source

theorem Indistinct.peek {l l' : Lexer} (h : Indistinct l l') :
    Paired id Indistinct l.peek l'.peek := by
  obtain ⟨source, lookahead, position, macros, log⟩ := l
  obtain ⟨source', lookahead', position', macros', log'⟩ := l'
  obtain ⟨rfl, rfl, rfl, rfl, hsource⟩ := h
  cases lookahead' with
  | some c => exact ⟨rfl, rfl, rfl, rfl, rfl, hsource⟩
  | none =>
    obtain ⟨hfirst, hafter⟩ := hsource.pull
    rcases hpull : source.pull with ⟨f | c, after⟩
    all_goals
      rcases hpull' : source'.pull with ⟨first, after'⟩
      rw [hpull, hpull'] at hfirst hafter
      subst hfirst
      simp only [Lexer.peek, hpull, hpull']
      exact ⟨rfl, rfl, rfl, rfl, rfl, hafter⟩

/-- Chunks do not matter to a lexer. -/
theorem parallel_indistinct (config : Config) : Parallel .refl config config Indistinct where
  role c := by rw [Renaming.point_refl]
  steps h := by rw [steps, steps, remaining, remaining, h.lookahead, h.source.size]
  position h := h.position
  lookup h c := by
    rw [h.macros, Renaming.map_token_refl]
    rfl
  peek h := ⟨h.peek.result.trans (Renaming.character_refl _).symm, h.peek.lexers⟩
  consume h hpeek hpeek' := by
    have hlexers := h.peek.lexers
    rw [hpeek, hpeek'] at hlexers
    obtain ⟨-, hposition, hmacros, hlog, hsource⟩ := hlexers
    exact ⟨rfl, congrArg (Position.advance · _) hposition, hmacros, hlog, hsource⟩
  bindMacro h symbol body := by
    rw [Renaming.token_refl]
    exact ⟨h.lookahead, h.position, congrArg (MacroTable.bind · symbol body) h.macros,
      congrArg₂ (fun position log => Binding.mk position symbol body :: log) h.position h.log,
      h.source⟩

end Lexer

/-! ### Sources that are broken off -/

namespace Lexer

namespace Session

section

variable {config : Config} {depth : Nat}

theorem run_cons (op : Operation) (ops : List Operation) (s : Session) :
    s.run config depth (op :: ops) =
      ((s.perform config depth op).1 :: ((s.perform config depth op).2.run config depth ops).1,
        ((s.perform config depth op).2.run config depth ops).2) :=
  rfl

theorem runResuming_cons (within : Nat → Bool) (op : Operation) (ops : List Operation)
    (s : Session) :
    s.runResuming config depth within (op :: ops) =
      ((s.performResuming config depth (within 0) op).1 ::
          ((s.performResuming config depth (within 0) op).2.runResuming config depth
            (fun n => within (n + 1)) ops).1,
        ((s.performResuming config depth (within 0) op).2.runResuming config depth
          (fun n => within (n + 1)) ops).2) :=
  rfl

/-- The answer does not depend on where a nesting error is met. -/
theorem answer_performResuming (within : Bool) (s : Session) (op : Operation) :
    (s.performResuming config depth within op).1 = (s.perform config depth op).1 := by
  rw [performResuming]
  split <;> rfl

theorem performResuming_of_shallow {s : Session} {op : Operation}
    (h : (s.perform config depth op).1.failure? ≠ some .tooDeep) (within : Bool) :
    s.performResuming config depth within op = s.perform config depth op := by
  simp [performResuming, h]

/-- Until there is a nesting error nothing is broken off, so that the same comes of all operations up
to the first that comes to one, and of that one as well. -/
theorem runResuming_of_shallow {s : Session} {ops : List Operation}
    (h : ∀ answer ∈ (s.run config depth ops).1, answer.failure? ≠ some .tooDeep)
    (within : Nat → Bool) :
    s.runResuming config depth within ops = s.run config depth ops ∧
      ∀ op, (s.runResuming config depth within (ops ++ [op])).1 =
        (s.run config depth (ops ++ [op])).1 := by
  induction ops generalizing s within with
  | nil =>
    refine ⟨rfl, fun op => ?_⟩
    exact congrArg (· :: []) (answer_performResuming (within 0) s op)
  | cons op ops ih =>
    rw [run_cons] at h
    obtain ⟨hfirst, hothers⟩ := List.forall_mem_cons.1 h
    have hperform := performResuming_of_shallow hfirst (within 0)
    obtain ⟨hrun, hnext⟩ := ih hothers (fun n => within (n + 1))
    refine ⟨?_, fun last => ?_⟩
    · rw [runResuming_cons, run_cons, hperform, hrun]
    · rw [List.cons_append, runResuming_cons, run_cons, hperform]
      exact congrArg (_ :: ·) (hnext last)

end

end Session

theorem lookahead_of_next {l l' : Lexer} {c : Char} (h : l.next = (.ok (some c), l')) :
    l'.lookahead = none := by
  rcases hpeek : l.peek with ⟨f | _ | d, l₁⟩
  all_goals simp only [next, hpeek, Prod.mk.injEq] at h
  · exact absurd h.1 (by simp)
  · exact absurd h.1 (by simp)
  · rw [← h.2]
    rfl

/-- Of as many groups inside of each other as there are readers for, each is entered, and in the last
one reading stops, right behind its delimiter. -/
theorem At.itemIn_groupStarts {config : Config} {m : MacroTable} {c : Char}
    (hacts : Acts config m c (some .groupStart)) {n steps : Nat} (hsteps : 2 * n < steps)
    {l : Lexer} {s : List Char} {p : Position} (hl : l.At ⟨List.replicate n c ++ s, p, m⟩)
    (hnone : l.lookahead = none) :
    ∃ l' p', itemIn config steps (2 * n) l = (.error .tooDeep, l') ∧ l'.At ⟨s, p', m⟩ ∧
      l'.lookahead = none := by
  induction n generalizing steps l p with
  | zero =>
    obtain ⟨steps, rfl⟩ : ∃ k, steps = k + 1 := ⟨steps - 1, by omega⟩
    exact ⟨l, p, by rw [Nat.mul_zero, itemIn]; omega, hl, hnone⟩
  | succ n ih =>
    obtain ⟨steps, rfl⟩ : ∃ k, steps = k + 2 := ⟨steps - 2, by omega⟩
    obtain ⟨l₁, hnext, h₁⟩ := hl.next_cons
    have hless : 2 * n < steps := by omega
    obtain ⟨l', p', hitem, hat, hlook⟩ := ih hless h₁ (lookahead_of_next hnext)
    refine ⟨l', p', ?_, hat, hlook⟩
    have hlookup : l₁.macros.lookup c = none := h₁.macros ▸ hacts.unbound
    simp only [Nat.mul_succ, itemIn, groupIn, hnext, hlookup, hacts.role, hitem]

/-- Reading stops there as well where the next token, or all of them, are asked for. -/
theorem At.readers_groupStarts {config : Config} {m : MacroTable} {c : Char}
    (hacts : Acts config m c (some .groupStart)) {n : Nat} {l : Lexer} {s : List Char}
    {p : Position} (hl : l.At ⟨List.replicate n c ++ s, p, m⟩) (hnone : l.lookahead = none) :
    ∃ l' p', l.readToken config (2 * n) = (.error .tooDeep, l') ∧
      l.readAll config (2 * n) = (.error .tooDeep, l') ∧ l'.At ⟨s, p', m⟩ ∧
      l'.lookahead = none := by
  have hsteps : 2 * n < l.steps := by
    have hle := hl.length_le
    rw [List.length_append, List.length_replicate] at hle
    omega
  obtain ⟨l', p', hitem, hat, hlook⟩ := hl.itemIn_groupStarts hacts hsteps hnone
  have htoken : l.readToken config (2 * n) = (.error .tooDeep, l') := by
    rw [readToken, tokenIn, hitem]
  refine ⟨l', p', htoken, ?_, hat, hlook⟩
  rw [readToken] at htoken
  have hrounds : l.steps = (2 * l.remaining + 2) + 1 := rfl
  rw [Lexer.readAll, hrounds, Lexer.allIn, ← hrounds, htoken]

/-- A lexer that has not looked ahead finds no more tokens once its source is broken off. -/
theorem readToken_brokenOff (config : Config) {depth : Nat} (hdepth : 0 < depth) {l : Lexer}
    (hnone : l.lookahead = none) :
    ({ l with source := l.source.brokenOff }.readToken config depth).1 = .ok none := by
  obtain ⟨depth, rfl⟩ := Nat.exists_eq_add_of_lt hdepth
  simp [readToken, tokenIn, steps, itemIn, next, peek, Source.pull, Source.brokenOff, hnone]

namespace Session

variable {config : Config} {c : Char} {n : Nat} {source : Source} {s : List Char}

/-- Of twice as many groups inside of each other as there are readers for, the second half is found
by the next call. -/
theorem run_groupStarts (hacts : Acts config .empty c (some .groupStart))
    (hstart : (ofSource source).At
      ⟨List.replicate n c ++ (List.replicate n c ++ s), .start, .empty⟩) :
    ((start source).run config (2 * n) [.readAll, .readToken]).1.map Answer.failure? =
      [some .tooDeep, some .tooDeep] := by
  obtain ⟨l₁, p₁, -, hall, h₁, hnone⟩ := hstart.readers_groupStarts hacts rfl
  obtain ⟨l₂, p₂, htoken, -⟩ := h₁.readers_groupStarts hacts hnone
  simp only [run, perform, start, hall, htoken]
  rfl

/-- Nothing is found by the next call where the nesting error was met within the source. -/
theorem runResuming_groupStarts (hacts : Acts config .empty c (some .groupStart)) (hn : 0 < n)
    (hstart : (ofSource source).At ⟨List.replicate n c ++ s, .start, .empty⟩) :
    ((start source).runResuming config (2 * n) (fun _ => true) [.readAll, .readToken]).1.map
      Answer.failure? = [some .tooDeep, none] := by
  obtain ⟨l₁, p₁, -, hall, -, hnone⟩ := hstart.readers_groupStarts hacts rfl
  have hbroken : (start source).performResuming config (2 * n) true .readAll =
      (.tokens (.error .tooDeep),
        ⟨{ l₁ with source := l₁.source.brokenOff }, fun _ => .running⟩) := by
    simp [performResuming, perform, start, hall, Answer.failure?]
  have htoken := readToken_brokenOff config (Nat.mul_pos Nat.two_pos hn) hnone
  simp only [runResuming, hbroken, answer_performResuming, perform, htoken]
  rfl

end Session

end Lexer

/-! ### Chunks are invisible -/

open Lexer (Session Operation) in
/-- The chunks in which a stream is read are invisible. However much is read at a time, exactly the
characters of the stream are handed out, in order; what is met behind the last of them comes next,
and from then on the source is at its end and does not touch the stream any more. Whatever is asked
of a lexer, the answers and states are the same as if the whole text were at hand, as long as the
source is not broken off. A nesting error that is met within the source breaks it off, so the answers
are the same up to the first nesting error at least, and so are the states before it. -/
theorem chunks_invisible (config : Config) (text : List Char) (ending : Ending) {k : Int}
    (hk : k ≠ 0) :
    let source := Source.ofStream ⟨text, ending⟩ k
    let last := (source.pulls (text.length + 1)).2
    (∀ n, source.pulls (text.length + 1 + n) =
      (text.map (fun c => .ok (some c)) ++ ending.met :: List.replicate n (.ok none), last)) ∧
    last.finished = true ∧
    (0 < k → last.reads = (text.length + k.toNat - 1) / k.toNat + 1) ∧
    (k < 0 → last.reads = if text = [] then 1 else 2) ∧
    (ending = .quiet → source.drain = (.ok text, last)) ∧
    ∀ (depth : Nat) (ops : List Operation),
      let whole := (Session.start (.ofText text ending)).run config depth ops
      Session.Matched Lexer.Indistinct whole ((Session.start source).run config depth ops) ∧
      ((∀ answer ∈ whole.1, answer.failure? ≠ some .tooDeep) → ∀ within : Nat → Bool,
        Session.Matched Lexer.Indistinct whole
          ((Session.start source).runResuming config depth within ops) ∧
        ∀ op, ((Session.start source).runResuming config depth within (ops ++ [op])).1 =
          ((Session.start (.ofText text ending)).run config depth (ops ++ [op])).1) := by
  intro source last
  have hchunk : source.chunk ≠ 0 := hk
  have halike := Source.alike_ofStream text ending hk
  have hleft : source.left = text := halike.left.trans (Source.left_ofText text ending)
  have hending : source.ending = ending := halike.ending.trans (Source.ending_ofText text ending)
  have hpulls := Source.pulls_eq hchunk
  have hreads : last.reads = Source.pieces k text.length + 1 := by
    have htotal := Source.reads_finished hchunk
    rw [hleft] at htotal
    exact htotal.trans (Nat.zero_add _)
  rw [hleft, hending] at hpulls
  refine ⟨fun n => (hpulls n).1, (hpulls 0).2, fun hpos => ?_, fun hneg => ?_, fun hquiet => ?_,
    fun depth ops => ?_⟩
  · rw [hreads, Source.pieces, if_pos hpos]
  · rw [hreads, Source.pieces, if_neg (Int.not_lt.2 (Int.le_of_lt hneg))]
    cases text with
    | nil => rfl
    | cons c text => rfl
  · have hdrain := Source.drainOnto_eq [] (hending.trans hquiet)
      (Nat.lt_succ_of_le source.length_left_le)
    rwa [hleft] at hdrain
  · have hstart :
        Session.Together Lexer.Indistinct (.start (.ofText text ending)) (.start source) :=
      ⟨⟨rfl, rfl, rfl, rfl, halike⟩, rfl⟩
    have hrun : ∀ ops, Session.Matched Lexer.Indistinct
        ((Session.start (.ofText text ending)).run config depth ops)
        ((Session.start source).run config depth ops) :=
      fun ops => (Lexer.parallel_indistinct config).run depth ops hstart
    refine ⟨hrun ops, fun hshallow within => ?_⟩
    rw [← (hrun ops).answers] at hshallow
    obtain ⟨hsame, hnext⟩ := Session.runResuming_of_shallow hshallow within
    exact ⟨hsame ▸ hrun ops, fun op => (hnext op).trans (hrun _).answers⟩

/-- A stream that is read two characters at a time, which cuts an escape, a number and a definition
in two, and that fails behind its last character. -/
theorem chunks_invisible_pairs :
    let text := ['+', '\\', 'a', 'b', '#', '1', '2', '$', 'x', '(', '+', ')']
    let ending := Ending.fault (.system "disk error")
    let source := Source.ofStream ⟨text, ending⟩ 2
    let ops : List Lexer.Operation := [.peek, .readToken, .readAll, .next]
    let whole := (Lexer.Session.start (.ofText text ending)).run .standard 9 ops
    (2 : Int) ≠ 0 ∧ (source.pulls 14).1 = text.map (fun c => .ok (some c)) ++
        [.error (.system "disk error"), .ok none] ∧
      (source.pulls 13).2.reads = 7 ∧
      (∀ answer ∈ whole.1, answer.failure? ≠ some .tooDeep) ∧
      Lexer.Session.Matched Lexer.Indistinct whole
        ((Lexer.Session.start source).runResuming .standard 9 (fun _ => true) ops) := by
  intro text ending source ops whole
  have hk : (2 : Int) ≠ 0 := by decide
  have hlength : text.length = 12 := rfl
  obtain ⟨hpulls, -, hreads, -, -, hsessions⟩ := chunks_invisible .standard text ending hk
  rw [hlength] at hpulls hreads
  have hshallow : ∀ answer ∈ whole.1, answer.failure? ≠ some .tooDeep := by decide +kernel
  exact ⟨hk, congrArg Prod.fst (hpulls 1), hreads (by decide), hshallow,
    ((hsessions 9 ops).2 hshallow fun _ => true).1⟩

open Lexer (Session Operation) in
/-- The first of too many groups that are open comes to a nesting error, and if this is met within
the source, the next token is none, where the text at hand has more of them. -/
theorem chunks_not_invisible :
    let text := List.replicate 4000 '('
    let source := Source.ofStream ⟨text, .quiet⟩ Source.chunkSize
    let ops : List Operation := [.readAll, .readToken]
    let limit := Lexer.nestingLimit
    ((Session.start (.ofText text .quiet)).run .standard limit ops).1.map Lexer.Answer.failure? =
        [some .tooDeep, some .tooDeep] ∧
      ((Session.start source).runResuming .standard limit (fun _ => true) ops).1.map
          Lexer.Answer.failure? = [some .tooDeep, none] := by
  intro text source ops limit
  have hacts : Acts .standard .empty '(' (some .groupStart) := ⟨rfl, rfl⟩
  have hlimit : limit = 2 * 500 := rfl
  have htext : text = List.replicate 500 '(' ++ (List.replicate 500 '(' ++
      List.replicate 3000 '(') := by
    simp only [text, List.replicate_append_replicate]
  have hwhole : (Lexer.ofSource (.ofText text .quiet)).At ⟨List.replicate 500 '(' ++
      (List.replicate 500 '(' ++ List.replicate 3000 '('), .start, .empty⟩ :=
    htext ▸ Lexer.at_ofText text
  have hstream : (Lexer.ofSource source).At ⟨List.replicate 500 '(' ++
      (List.replicate 500 '(' ++ List.replicate 3000 '('), .start, .empty⟩ :=
    htext ▸ Lexer.at_ofStream text
  rw [hlimit]
  exact ⟨Session.run_groupStarts hacts hwhole,
    Session.runResuming_groupStarts hacts (by decide) hstream⟩

end Unroll
