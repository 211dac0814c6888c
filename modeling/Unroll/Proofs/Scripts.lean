import Unroll.Proofs.Expansion

/-!
# Scripts

What tokens ask of a writer depends neither on its sink nor on its counter: they are a script of
operators, with an end that comes after them. The operators, with the ends of the lines that they
fill, are offered to the sink one after the other.

* `Sink.offer` — texts are written one after the other, until one is refused;
* `Script`, `follows_writeTokens` — tokens are written like a script;
* `Writer.Offered`, `Writer.offered_putAll` — what comes of operators that are counted.
-/

namespace Unroll

/-! ### Offers -/

namespace Sink

theorem counted_cons (sink : Sink) (text : String) :
    sink.count + 1 = (text :: sink.calls).length := by
  rw [sink.counted, List.length_cons]

/-- A sink after a text that it has refused. -/
def refused (sink : Sink) (text : String) : Sink :=
  { sink with calls := text :: sink.calls, count := sink.count + 1,
              counted := sink.counted_cons text }

/-- Writes texts one after the other, until one is refused. -/
def offer : List String → Sink → Except Fault Unit × Sink
  | [], sink => (.ok (), sink)
  | text :: texts, sink =>
    match sink.write text with
    | (.ok (), sink) => offer texts sink
    | (.error f, sink) => (.error f, sink)

variable {sink : Sink} {text : String}

theorem write_of_taken (h : sink.refuses sink.count text = none) :
    sink.write text = (.ok (), sink.after [text]) := by
  simp only [write, h]
  rfl

theorem write_of_refused {f : Fault} (h : sink.refuses sink.count text = some f) :
    sink.write text = (.error f, sink.refused text) := by
  simp only [write, h]
  rfl

theorem offer_of_write {after : Sink} (h : sink.write text = (.ok (), after))
    (texts : List String) : sink.offer (text :: texts) = after.offer texts := by
  rw [offer, h]

theorem offer_of_write_error {f : Fault} {after : Sink} (h : sink.write text = (.error f, after))
    (texts : List String) : sink.offer (text :: texts) = (.error f, after) := by
  rw [offer, h]

theorem offer_singleton (sink : Sink) (text : String) : sink.offer [text] = sink.write text := by
  rcases h : sink.write text with ⟨f | _, after⟩
  · rw [offer_of_write_error h]
  · rw [offer_of_write h, offer]

/-- A sink decides about texts as it did before them. -/
theorem refuses_offer (sink : Sink) (texts : List String) :
    (sink.offer texts).2.refuses = sink.refuses := by
  induction texts generalizing sink with
  | nil => rfl
  | cons text texts ih =>
    rcases htext : sink.refuses sink.count text with _ | f
    · rw [offer_of_write (write_of_taken htext), ih]
      rfl
    · rw [offer_of_write_error (write_of_refused htext)]
      rfl

/-- After texts that are all taken, the next ones are offered. -/
theorem offer_append {xs : List String} {after : Sink} (h : sink.offer xs = (.ok (), after))
    (ys : List String) : sink.offer (xs ++ ys) = after.offer ys := by
  induction xs generalizing sink with
  | nil =>
    obtain rfl : sink = after := congrArg Prod.snd h
    rfl
  | cons text xs ih =>
    rcases hwrite : sink.write text with ⟨f | _, next⟩
    · rw [offer_of_write_error hwrite] at h
      cases h
    · rw [offer_of_write hwrite] at h
      rw [List.cons_append, offer_of_write hwrite, ih h]

/-- After a text that is refused, nothing is offered any more. -/
theorem offer_append_of_error {xs : List String} {f : Fault} {after : Sink}
    (h : sink.offer xs = (.error f, after)) (ys : List String) :
    sink.offer (xs ++ ys) = (.error f, after) := by
  induction xs generalizing sink with
  | nil => cases h
  | cons text xs ih =>
    rcases hwrite : sink.write text with ⟨f' | _, next⟩
    · rw [offer_of_write_error hwrite] at h
      rw [List.cons_append, offer_of_write_error hwrite, h]
    · rw [offer_of_write hwrite] at h
      rw [List.cons_append, offer_of_write hwrite, ih h]

theorem count_after (sink : Sink) (texts : List String) :
    (sink.after texts).count = sink.count + texts.length := rfl

/-- Texts that a sink would take are taken, and what comes after them is offered. -/
theorem offer_of_taken {taken : List String}
    (h : ∀ i (hi : i < taken.length), sink.refuses (sink.count + i) taken[i] = none)
    (rest : List String) : sink.offer (taken ++ rest) = (sink.after taken).offer rest := by
  induction taken generalizing sink with
  | nil => rfl
  | cons text taken ih =>
    have hfirst : sink.refuses sink.count text = none := h 0 (Nat.zero_lt_succ _)
    have hrest : ∀ i (hi : i < taken.length),
        (sink.after [text]).refuses ((sink.after [text]).count + i) taken[i] = none := by
      intro i hi
      have hnext := h (i + 1) (Nat.succ_lt_succ hi)
      rwa [← Nat.add_assoc, Nat.add_right_comm] at hnext
    rw [List.cons_append, offer_of_write (write_of_taken hfirst), ih hrest, after_after,
      List.singleton_append]

/-- If the first `n` of some texts are all that a sink would take of them, it is called once more,
unless there are no more of them. -/
theorem offer_eq {texts : List String} {n : Nat}
    (h : ∀ i (hi : i < texts.length), i < n → sink.refuses (sink.count + i) texts[i] = none) :
    (texts.length ≤ n → sink.offer texts = (.ok (), sink.after texts)) ∧
    (∀ (hn : n < texts.length) f, sink.refuses (sink.count + n) texts[n] = some f →
      sink.offer texts = (.error f, (sink.after (texts.take n)).refused texts[n])) := by
  constructor
  · intro hle
    have htaken := offer_of_taken (fun i hi => h i hi (Nat.lt_of_lt_of_le hi hle)) []
    rwa [List.append_nil] at htaken
  · intro hn f hrefused
    have htaken : ∀ i (hi : i < (texts.take n).length),
        sink.refuses (sink.count + i) (texts.take n)[i] = none := by
      intro i hi
      rw [List.length_take] at hi
      rw [List.getElem_take]
      exact h i (by omega) (by omega)
    have hcount : (sink.after (texts.take n)).count = sink.count + n := by
      rw [count_after, List.length_take, Nat.min_eq_left (Nat.le_of_lt hn)]
    have hwrite : (sink.after (texts.take n)).write texts[n] =
        (.error f, (sink.after (texts.take n)).refused texts[n]) := by
      apply write_of_refused
      rw [hcount]
      exact hrefused
    have hsplit : texts = texts.take n ++ texts[n] :: texts.drop (n + 1) := by
      rw [← List.drop_eq_getElem_cons hn, List.take_append_drop]
    calc sink.offer texts
        = sink.offer (texts.take n ++ texts[n] :: texts.drop (n + 1)) := by rw [← hsplit]
      _ = (sink.after (texts.take n)).offer (texts[n] :: texts.drop (n + 1)) :=
          offer_of_taken htaken _
      _ = _ := offer_of_write_error hwrite _

end Sink

/-! ### Scripts -/

/-- Writes operators one after the other, until the writer fails. -/
def Writer.putAll : List String → Writer → Except Failure Unit × Writer
  | [], w => (.ok (), w)
  | symbol :: ops, w =>
    match w.putOperator symbol with
    | (.ok (), w) => putAll ops w
    | (.error e, w) => (.error e, w)

/-- Operators, and what comes of it when all of them are written. -/
structure Script where
  ops : List String
  ending : Except Writer.Failure Unit

namespace Script

/-- Writes the operators of a script. -/
def play (s : Script) (w : Writer) : Except Writer.Failure Unit × Writer :=
  match w.putAll s.ops with
  | (.ok (), w) => (s.ending, w)
  | (.error e, w) => (.error e, w)

/-- Something is done to every writer as a script says. -/
def Follows (s : Script) (act : Writer → Except Writer.Failure Unit × Writer) : Prop :=
  ∀ w, act w = s.play w

/-- A script after another one, if that comes to its end. -/
def andThen (s t : Script) : Script :=
  match s.ending with
  | .ok () => ⟨s.ops ++ t.ops, t.ending⟩
  | .error e => ⟨s.ops, .error e⟩

variable {s t : Script} {w w' : Writer}

theorem play_fst (s : Script) (w : Writer) :
    (s.play w).1 = (w.putAll s.ops).1 >>= fun _ => s.ending := by
  rcases hput : w.putAll s.ops with ⟨e | _, w'⟩ <;> simp only [play, hput] <;> rfl

theorem play_snd (s : Script) (w : Writer) : (s.play w).2 = (w.putAll s.ops).2 := by
  rcases hput : w.putAll s.ops with ⟨e | _, w'⟩ <;> simp only [play, hput]

theorem play_of_putAll (h : w.putAll s.ops = (.ok (), w')) : s.play w = (s.ending, w') := by
  rw [play, h]

theorem play_of_putAll_error {e : Writer.Failure} (h : w.putAll s.ops = (.error e, w')) :
    s.play w = (.error e, w') := by
  rw [play, h]

theorem putAll_append {xs : List String} (h : w.putAll xs = (.ok (), w')) (ys : List String) :
    w.putAll (xs ++ ys) = w'.putAll ys := by
  induction xs generalizing w with
  | nil =>
    obtain rfl : w = w' := congrArg Prod.snd h
    rfl
  | cons symbol xs ih =>
    rcases hput : w.putOperator symbol with ⟨e | _, next⟩
    · simp only [Writer.putAll, hput] at h
      cases h
    · simp only [Writer.putAll, hput] at h
      simp only [List.cons_append, Writer.putAll, hput, ih h]

theorem putAll_append_of_error {xs : List String} {e : Writer.Failure}
    (h : w.putAll xs = (.error e, w')) (ys : List String) :
    w.putAll (xs ++ ys) = (.error e, w') := by
  induction xs generalizing w with
  | nil => cases h
  | cons symbol xs ih =>
    rcases hput : w.putOperator symbol with ⟨e' | _, next⟩
    · simp only [Writer.putAll, hput] at h
      simp only [List.cons_append, Writer.putAll, hput, h]
    · simp only [Writer.putAll, hput] at h
      simp only [List.cons_append, Writer.putAll, hput, ih h]

theorem play_andThen (h : s.play w = (.ok (), w')) : (s.andThen t).play w = t.play w' := by
  rcases hput : w.putAll s.ops with ⟨e | _, next⟩
  · rw [play_of_putAll_error hput] at h
    cases h
  · rw [play_of_putAll hput] at h
    have hending : s.ending = .ok () := congrArg Prod.fst h
    obtain rfl : next = w' := congrArg Prod.snd h
    simp only [play, andThen, hending, putAll_append hput]

theorem play_andThen_of_error {e : Writer.Failure} (h : s.play w = (.error e, w')) :
    (s.andThen t).play w = (.error e, w') := by
  rcases hput : w.putAll s.ops with ⟨e' | _, next⟩
  · rw [play_of_putAll_error hput] at h
    rcases hending : s.ending with e'' | _
    · simp only [play, andThen, hending, hput, h]
    · simp only [play, andThen, hending, putAll_append_of_error hput, h]
  · rw [play_of_putAll hput] at h
    have hending : s.ending = .error e := congrArg Prod.fst h
    obtain rfl : next = w' := congrArg Prod.snd h
    simp only [play, andThen, hending, hput]

/-- What ends at once is a script without operators. -/
theorem follows_pure (ending : Except Writer.Failure Unit) :
    Follows ⟨[], ending⟩ fun w => (ending, w) :=
  fun _ => rfl

theorem follows_putOperator (symbol : String) :
    Follows ⟨[symbol], .ok ()⟩ (·.putOperator symbol) := by
  intro w
  rcases hput : w.putOperator symbol with ⟨e | _, next⟩ <;>
    simp only [play, Writer.putAll, hput]

variable {act next : Writer → Except Writer.Failure Unit × Writer}

/-- Scripts follow one another as what they are written for does. -/
theorem Follows.andThen {both : Writer → Except Writer.Failure Unit × Writer}
    (hact : s.Follows act) (hnext : t.Follows next)
    (hok : ∀ w w', act w = (.ok (), w') → both w = next w')
    (herror : ∀ w e w', act w = (.error e, w') → both w = (.error e, w')) :
    (s.andThen t).Follows both := by
  intro w
  rcases hdone : act w with ⟨e | _, w'⟩
  · have hplay := (hact w).symm.trans hdone
    rw [herror w e w' hdone, play_andThen_of_error hplay]
  · have hplay := (hact w).symm.trans hdone
    rw [hok w w' hdone, play_andThen hplay, hnext w']

/-- What follows a script follows one also when it is repeated. -/
theorem Follows.repeated (hact : s.Follows act) (times : Nat) :
    ∃ t : Script, t.Follows (Writer.repeated act times) := by
  induction times with
  | zero => exact ⟨_, follows_pure (.ok ())⟩
  | succ times ih =>
    obtain ⟨t, ht⟩ := ih
    refine ⟨s.andThen t, hact.andThen ht (fun w w' hok => ?_) (fun w e w' herror => ?_)⟩
    · rw [Writer.repeated, hok]
    · rw [Writer.repeated, herror]

end Script

mutual
/-- A token is written as a script says, on whatever writer. -/
theorem follows_writeToken : ∀ (t : Token) (depth times : Nat),
    ∃ s : Script, s.Follows (writeToken t depth times)
  | .number _, _, _ => ⟨_, Script.follows_pure (.ok ())⟩
  | .operator symbol, _, times => by
    simp only [Script.Follows, writeToken]
    exact (Script.follows_putOperator symbol).repeated times
  | .group tokens, 0, times => by
    simp only [Script.Follows, writeToken]
    exact (Script.follows_pure (.error .tooDeep)).repeated times
  | .group tokens, depth + 1, times => by
    obtain ⟨s, hs⟩ := follows_writeTokens tokens depth 1
    simp only [Script.Follows, writeToken]
    exact hs.repeated times
  | .foreign v, _, _ => ⟨_, Script.follows_pure (.error (.foreign v))⟩
theorem follows_writeTokens : ∀ (ts : List Token) (depth : Nat) (multiplier : Int),
    ∃ s : Script, s.Follows (writeTokens ts depth multiplier)
  | [], _, _ => ⟨_, Script.follows_pure (.ok ())⟩
  | t :: ts, depth, multiplier => by
    obtain ⟨n, rfl⟩ | hne := t.number_or
    · simp only [Script.Follows, writeTokens]
      exact follows_writeTokens ts depth n
    · obtain ⟨s, hs⟩ := follows_writeToken t depth multiplier.toNat
      obtain ⟨s', hs'⟩ := follows_writeTokens ts depth 1
      refine ⟨s.andThen s', hs.andThen hs' (fun w w' hok => ?_) (fun w e w' herror => ?_)⟩
      · exact (writeTokens_cons hne ts depth multiplier w).1 w' hok
      · exact (writeTokens_cons hne ts depth multiplier w).2 e w' herror
end

/-! ### Counted operators -/

namespace Writer

/-- The line that is written is not full. -/
def LineOpen (w : Writer) : Prop := ∀ counter ∈ w.counter, counter.length < counter.width

/-- What comes of operators that are offered to the sink of a writer whose line is open, with the
ends of the lines that they fill. The line is open again after it, unless its end was refused. -/
inductive Offered (w : Writer) (ops : List String) : Except Failure Unit × Writer → Prop where
  | taken {sink : Sink} (h : w.sink.offer (w.callsFor ops) = (.ok (), sink)) :
      Offered w ops (.ok (), ⟨sink, w.counter.map (·.forward ops.length)⟩)
  | refused {f : Fault} {sink : Sink} (h : w.sink.offer (w.callsFor ops) = (.error f, sink))
      (count : Nat) : Offered w ops (.error (.output f), ⟨sink, w.counter.map (·.forward count)⟩)
  | endRefused {f : Fault} {sink : Sink} {counter : LineCounter}
      (h : w.sink.offer (w.callsFor ops) = (.error f, sink.refused "\n"))
      (hcounter : w.counter = some counter) (hend : sink.refuses sink.count "\n" = some f) :
      Offered w ops (.error (.output f),
        ⟨sink.refused "\n", some { counter with length := counter.width }⟩)

/-- What comes of operators, but for the counter, is what comes of offering the calls for them. -/
theorem Offered.result {w : Writer} {ops : List String} {done : Except Failure Unit × Writer}
    (h : Offered w ops done) :
    done.1 = (w.sink.offer (w.callsFor ops)).1.mapError .output ∧
      done.2.sink = (w.sink.offer (w.callsFor ops)).2 := by
  cases h with
  | taken h | refused h _ | endRefused h _ _ =>
    rw [h]
    exact ⟨rfl, rfl⟩

theorem callsFor_singleton (w : Writer) (symbol : String) :
    ∃ ends, w.callsFor [symbol] = symbol :: ends := by
  obtain ⟨sink, counter⟩ := w
  cases counter with
  | none => exact ⟨[], rfl⟩
  | some counter =>
    have hcalls : callsFor ⟨sink, some counter⟩ [symbol] = counter.calls (symbol, 1) :=
      List.append_nil _
    rw [hcalls, LineCounter.calls]
    split
    · exact ⟨_, rfl⟩
    · exact ⟨_, rfl⟩

/-- An operator that is refused is not counted. -/
theorem offered_of_refused {w : Writer} (h : w.LineOpen) {symbol : String} {f : Fault}
    (hrefused : w.sink.refuses w.sink.count symbol = some f) :
    Offered w [symbol] (w.putOperator symbol) := by
  have hwrite := Sink.write_of_refused hrefused
  obtain ⟨ends, hends⟩ := w.callsFor_singleton symbol
  have hoffer : w.sink.offer (w.callsFor [symbol]) = (.error f, w.sink.refused symbol) := by
    rw [hends, Sink.offer_of_write_error hwrite]
  have hkept : w.counter.map (·.forward 0) = w.counter := by
    rcases hcounter : w.counter with _ | counter
    · rfl
    · rw [Option.map_some, LineCounter.forward_zero (h counter hcounter)]
  have hdone := Offered.refused hoffer 0
  rw [hkept] at hdone
  simp only [putOperator, put, hwrite]
  exact hdone

/-- What counting one operator comes to in an open line: the line goes on, or it is full, and its end
is taken or refused. -/
inductive Advanced (w : Writer) (counter : LineCounter) : Except Failure Unit × Writer → Prop where
  | goesOn (h : counter.length + 1 < counter.width) :
      Advanced w counter
        (.ok (), { w with counter := some { counter with length := counter.length + 1 } })
  | ended (h : counter.length + 1 = counter.width)
      (htaken : w.sink.refuses w.sink.count "\n" = none) :
      Advanced w counter
        (.ok (), ⟨w.sink.after ["\n"], some { counter with length := 0 }⟩)
  | endRefused {f : Fault} (h : counter.length + 1 = counter.width)
      (hrefused : w.sink.refuses w.sink.count "\n" = some f) :
      Advanced w counter
        (.error (.output f), ⟨w.sink.refused "\n", some { counter with length := counter.width }⟩)

theorem advanced (w : Writer) {counter : LineCounter} (h : counter.length < counter.width) :
    Advanced w counter (w.advance counter) := by
  by_cases hfull : counter.length + 1 = counter.width
  · rcases hline : w.sink.refuses w.sink.count "\n" with _ | f
    · simp only [advance, put, Sink.write_of_taken hline, if_pos hfull]
      exact .ended hfull hline
    · simp only [advance, put, Sink.write_of_refused hline, hfull, if_true]
      exact .endRefused hfull hline
  · simp only [advance, if_neg hfull]
    exact .goesOn (Nat.lt_of_le_of_ne h hfull)

/-- After an operator that is taken, the end of the line is offered if the operator makes it full. -/
theorem offered_advance {sink : Sink} {counter : LineCounter}
    (hlt : counter.length < counter.width) {symbol : String}
    (htaken : sink.refuses sink.count symbol = none) :
    Offered ⟨sink, some counter⟩ [symbol]
      (advance ⟨sink.after [symbol], some counter⟩ counter) := by
  have hwrite := Sink.write_of_taken htaken
  have hcalls : callsFor ⟨sink, some counter⟩ [symbol] = counter.calls (symbol, 1) :=
    List.append_nil _
  have hadvanced := advanced ⟨sink.after [symbol], some counter⟩ hlt
  generalize advance ⟨sink.after [symbol], some counter⟩ counter = done at hadvanced
  cases hadvanced with
  | goesOn hless =>
    have hmod : (counter.length + 1) % counter.width = counter.length + 1 := Nat.mod_eq_of_lt hless
    have hforward : counter.forward 1 = { counter with length := counter.length + 1 } := by
      rw [LineCounter.forward, hmod]
    rw [← hforward]
    apply Offered.taken
    rw [hcalls, LineCounter.calls, if_neg (by omega), Sink.offer_singleton, hwrite]
  | ended hfull hline =>
    have hmod : (counter.length + 1) % counter.width = 0 := by rw [hfull, Nat.mod_self]
    have hforward : counter.forward 1 = { counter with length := 0 } := by
      rw [LineCounter.forward, hmod]
    rw [← hforward]
    apply Offered.taken
    rw [hcalls, LineCounter.calls, if_pos hmod, Sink.offer_of_write hwrite, Sink.offer_singleton]
    exact Sink.write_of_taken hline
  | endRefused hfull hline =>
    have hmod : (counter.length + 1) % counter.width = 0 := by rw [hfull, Nat.mod_self]
    refine .endRefused ?_ rfl hline
    rw [hcalls, LineCounter.calls, if_pos hmod, Sink.offer_of_write hwrite, Sink.offer_singleton]
    exact Sink.write_of_refused hline

/-- One operator is offered, and then the end of the line if it makes it full. -/
theorem offered_putOperator {w : Writer} (h : w.LineOpen) (symbol : String) :
    Offered w [symbol] (w.putOperator symbol) := by
  rcases htext : w.sink.refuses w.sink.count symbol with _ | f
  · obtain ⟨sink, counter⟩ := w
    have hwrite := Sink.write_of_taken htext
    cases counter with
    | none =>
      simp only [putOperator, put, hwrite]
      exact .taken (by rw [callsFor, Sink.offer_singleton, hwrite])
    | some counter =>
      simp only [putOperator, put, hwrite]
      exact offered_advance (h counter rfl) htext
  · exact offered_of_refused h htext

/-- The calls for operators are those for the first of them, and those of the writer after it. -/
theorem callsFor_cons (w : Writer) (symbol : String) (ops : List String) (sink : Sink) :
    w.callsFor (symbol :: ops) =
      w.callsFor [symbol] ++ callsFor ⟨sink, w.counter.map (·.forward 1)⟩ ops := by
  obtain ⟨_, counter⟩ := w
  cases counter with
  | none => rfl
  | some counter => exact counter.wrapped_append [symbol] ops

theorem LineOpen.forward {w : Writer} (h : w.LineOpen) (sink : Sink) (count : Nat) :
    LineOpen ⟨sink, w.counter.map (·.forward count)⟩ := by
  intro counter hcounter
  obtain ⟨before, hbefore, rfl⟩ := Option.map_eq_some_iff.1 hcounter
  exact LineCounter.forward_valid (h before hbefore) count

theorem map_forward_forward (counter : Option LineCounter) (m n : Nat) :
    (counter.map (·.forward m)).map (·.forward n) = counter.map (·.forward (m + n)) := by
  cases counter with
  | none => rfl
  | some counter => exact congrArg some (counter.forward_forward m n)

/-- Where the first operator is taken, the others are offered to the writer after it. -/
theorem Offered.cons {w : Writer} {symbol : String} {ops : List String} {sink : Sink}
    {done : Except Failure Unit × Writer}
    (hfirst : w.sink.offer (w.callsFor [symbol]) = (.ok (), sink))
    (hrest : Offered ⟨sink, w.counter.map (·.forward 1)⟩ ops done) :
    Offered w (symbol :: ops) done := by
  have hoffer : w.sink.offer (w.callsFor (symbol :: ops)) =
      sink.offer (callsFor ⟨sink, w.counter.map (·.forward 1)⟩ ops) := by
    rw [callsFor_cons w symbol ops sink, Sink.offer_append hfirst]
  cases hrest with
  | taken h =>
    rw [map_forward_forward, Nat.add_comm]
    exact .taken (hoffer.trans h)
  | refused h count =>
    rw [map_forward_forward]
    exact .refused (hoffer.trans h) _
  | endRefused h hcounter hend =>
    obtain ⟨before, hbefore, rfl⟩ := Option.map_eq_some_iff.1 hcounter
    have hended := Offered.endRefused (hoffer.trans h) hbefore hend
    exact hended

/-- Operators are offered to a sink together with the ends of their lines, in order, until a call is
refused. -/
theorem offered_putAll {w : Writer} (h : w.LineOpen) (ops : List String) :
    Offered w ops (w.putAll ops) := by
  induction ops generalizing w with
  | nil =>
    obtain ⟨sink, counter⟩ := w
    cases counter with
    | none => exact .taken rfl
    | some counter =>
      have htaken : Offered ⟨sink, some counter⟩ [] (.ok (), ⟨sink, some (counter.forward 0)⟩) :=
        .taken rfl
      rwa [LineCounter.forward_zero (h counter rfl)] at htaken
  | cons symbol ops ih =>
    have hfirst := offered_putOperator h symbol
    generalize hput : w.putOperator symbol = done at hfirst
    cases hfirst with
    | @taken sink hoffer =>
      simp only [putAll, hput]
      exact .cons hoffer (ih (h.forward sink 1))
    | @refused f sink hoffer count =>
      simp only [putAll, hput]
      refine .refused ?_ count
      rw [callsFor_cons w symbol ops sink, Sink.offer_append_of_error hoffer]
    | @endRefused f sink counter hoffer hcounter hend =>
      simp only [putAll, hput]
      refine .endRefused ?_ hcounter hend
      rw [callsFor_cons w symbol ops sink, Sink.offer_append_of_error hoffer]

end Writer

end Unroll
