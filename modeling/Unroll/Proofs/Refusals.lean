import Unroll.Proofs.Output
import Unroll.Proofs.Scripts

/-!
# Refused output

A sink that refuses a call is met by all of the calls before it, and by none after it.

* `Sink.Offers`, `writeAll_offers` — what is written to a sink is offered to every other as well;
* `CutShort`, `writeTo_cutShort` — the calls on a sink that fails are those of the whole output, up
  to the first that is refused.
-/

namespace Unroll

/-! ### Tokens -/

/-- Something is written to whatever sink by offering it the same texts. It has an end of its own if
all of them are taken, and otherwise fails of the fault of the sink. -/
def Sink.Offers {ε : Type} (calls : List String) (ending : Except ε Unit) (failure : Fault → ε)
    (write : Sink → Except ε Unit × Sink) : Prop :=
  ∀ sink : Sink,
    (∀ after, sink.offer calls = (.ok (), after) → write sink = (ending, after)) ∧
    (∀ f after, sink.offer calls = (.error f, after) → write sink = (.error (failure f), after))

/-- It is the same with another name for each failure. -/
theorem Sink.Offers.mapError {ε ε' : Type} {calls : List String} {ending : Except ε Unit}
    {failure : Fault → ε} {write : Sink → Except ε Unit × Sink}
    (h : Offers calls ending failure write) (g : ε → ε') :
    Offers calls (ending.mapError g) (g ∘ failure)
      fun sink => ((write sink).1.mapError g, (write sink).2) := by
  intro sink
  refine ⟨fun after htaken => ?_, fun f after hrefused => ?_⟩
  · simp only [(h sink).1 after htaken]
  · simp only [(h sink).2 f after hrefused]
    rfl

/-- A sink that takes everything shows what is offered to every sink. -/
theorem Sink.Offers.unlimited {ε : Type} {calls : List String} {ending : Except ε Unit}
    {failure : Fault → ε} {write : Sink → Except ε Unit × Sink}
    (h : Offers calls ending failure write) :
    (write .unlimited).1 = ending ∧ (write .unlimited).2.calls.reverse = calls := by
  have hnone : ∀ i (hi : i < calls.length),
      Sink.unlimited.refuses (Sink.unlimited.count + i) calls[i] = none := fun _ _ => rfl
  have htaken := Sink.offer_of_taken hnone []
  rw [List.append_nil] at htaken
  rw [(h .unlimited).1 _ htaken]
  exact ⟨rfl, by simp [Sink.after, Sink.unlimited, Sink.ofRule]⟩

/-- Tokens are written in an open line by offering the calls for the operators of a script. -/
theorem writeTokens_offers (depth : Nat) (ts : List Token) {counter : Option LineCounter}
    (hopen : ∀ c ∈ counter, c.length < c.width) :
    ∃ calls ending, Sink.Offers calls ending .output fun sink =>
      ((writeTokens ts depth 1 ⟨sink, counter⟩).1, (writeTokens ts depth 1 ⟨sink, counter⟩).2.sink)
    := by
  obtain ⟨s, hs⟩ := follows_writeTokens ts depth 1
  refine ⟨Writer.callsFor ⟨.unlimited, counter⟩ s.ops, s.ending, fun sink => ?_⟩
  have hopen' : Writer.LineOpen ⟨sink, counter⟩ := hopen
  obtain ⟨hresult, hsink⟩ := (Writer.offered_putAll hopen' s.ops).result
  have hoffer : Writer.callsFor ⟨sink, counter⟩ s.ops =
      Writer.callsFor ⟨.unlimited, counter⟩ s.ops := rfl
  rw [hoffer] at hresult hsink
  simp only [hs _, Script.play_fst, Script.play_snd, hresult, hsink]
  constructor
  · intro after htaken
    rw [htaken]
    rfl
  · intro f after hrefused
    rw [hrefused]
    rfl

theorem writeAll_offers (depth : Nat) (ts : List Token) (lineWidth : Option Int) :
    ∃ calls ending, Sink.Offers calls ending (fun f => .writer (.output f))
      (writeAll depth ts lineWidth) := by
  cases lineWidth with
  | none =>
    have hopen : ∀ c ∈ (none : Option LineCounter), c.length < c.width := by simp
    obtain ⟨calls, ending, h⟩ := writeTokens_offers depth ts hopen
    exact ⟨calls, _, h.mapError WriteFailure.writer⟩
  | some width =>
    by_cases hlt : width < 1
    · have hcounter : LineCounter.ofWidth? width = none := if_pos hlt
      refine ⟨[], .error (.width width), fun sink => ⟨fun after htaken => ?_, by simp [Sink.offer]⟩⟩
      obtain rfl : sink = after := congrArg Prod.snd htaken
      simp only [writeAll, hcounter]
    · have hcounter : LineCounter.ofWidth? width = some ⟨width.toNat, 0⟩ := if_neg hlt
      have hopen : ∀ c ∈ some (LineCounter.mk width.toNat 0), c.length < c.width := by
        intro c hc
        obtain rfl := Option.some.inj hc
        simp only
        omega
      obtain ⟨calls, ending, h⟩ := writeTokens_offers depth ts hopen
      refine ⟨calls, ending.mapError .writer, fun sink => ?_⟩
      have hwrite := h.mapError WriteFailure.writer sink
      simp only [writeAll, hcounter]
      exact hwrite

/-! ### Sinks that fail -/

/-- What writing comes to on a sink that takes only so many calls, where the whole output is written
by certain calls and has a certain end. -/
structure CutShort (calls : List String) (ending : Except Failure Unit)
    (refuses : Nat → String → Option Fault) (taken : Nat) (result : Except Failure Unit)
    (sink : Sink) : Prop where
  made : sink.calls.reverse = calls.take (taken + 1)
  received : sink.output = String.join (calls.take taken)
  succeeds : result = .ok () ↔ calls.length ≤ taken ∧ ending = .ok ()
  ends (h : calls.length ≤ taken) : result = ending
  /-- the fault of the sink is the cause of an error, but is not wrapped if it is not expected; the
  one thing that is no fault here is named with `Fault.unannounced` -/
  fails (h : taken < calls.length) : ∃ f, refuses taken calls[taken] = some f ∧
    result = .error (if f.isExpected then .error (.output [] (some f)) else .fault f)

/-- What is written by offering texts is cut short by a sink that takes only so many of them. -/
theorem Sink.Offers.cutShort {calls : List String} {ending : Except Failure Unit}
    {write : Sink → Except Failure Unit × Sink} (h : Offers calls ending .ofOutput write)
    {refuses : Nat → String → Option Fault} {taken : Nat}
    (htaken : ∀ i (hi : i < calls.length), i < taken → refuses i calls[i] = none)
    (hrefused : ∀ hlt : taken < calls.length, ∃ f, refuses taken calls[taken] = some f) :
    CutShort calls ending refuses taken (write (.ofRule refuses)).1 (write (.ofRule refuses)).2 := by
  have hcount : ∀ n, (Sink.ofRule refuses).count + n = n := Nat.zero_add
  have hnone : ∀ i (hi : i < calls.length), i < taken →
      (Sink.ofRule refuses).refuses ((Sink.ofRule refuses).count + i) calls[i] = none := by
    intro i hi hlt
    rw [hcount]
    exact htaken i hi hlt
  obtain ⟨hall, hsome⟩ := Sink.offer_eq hnone
  rcases Nat.lt_or_ge taken calls.length with hlt | hle
  · obtain ⟨f, hf⟩ := hrefused hlt
    have hoffer := hsome hlt f (by rw [hcount]; exact hf)
    rw [(h _).2 f _ hoffer]
    constructor
    case made =>
      rw [List.take_succ_eq_append_getElem hlt]
      simp [Sink.refused, Sink.after, Sink.ofRule]
    case received => simp [Sink.refused, Sink.after, Sink.ofRule, Sink.output]
    case succeeds =>
      refine ⟨fun hok => ?_, fun hok => absurd hok.1 (Nat.not_le_of_lt hlt)⟩
      cases hok
    case ends => exact fun hle => absurd hle (Nat.not_le_of_lt hlt)
    case fails => exact fun _ => ⟨f, hf, by rw [Failure.ofOutput]⟩
  · rw [(h _).1 _ (hall hle)]
    constructor
    case made =>
      rw [List.take_of_length_le (Nat.le_succ_of_le hle)]
      simp [Sink.after, Sink.ofRule]
    case received =>
      rw [List.take_of_length_le hle, Sink.output_after, Sink.output_ofRule, String.empty_append]
    case succeeds => exact ⟨fun hok => ⟨hle, hok⟩, fun hok => hok.2⟩
    case ends => exact fun _ => rfl
    case fails => exact fun hlt => absurd hlt (Nat.not_lt_of_le hle)

/-- Whatever tokens are written, at whatever width, a sink that fails is met by the calls of the
whole output, in order, up to the first one that it refuses, and by none after it. What it has
received is what the calls before that one come to. This holds of a sink that takes so many calls
as well as of one that looks at their texts. Writing succeeds if and only if the sink takes all the
calls, unless the whole output itself has another end: that of tokens has none but for groups in
more groups than may be. -/
theorem writeTo_cutShort (files : Files) (depth : Nat) (ts : List Token)
    (lineWidth : Option Int) :
    let whole := writeAll depth ts lineWidth .unlimited
    let calls := whole.2.calls.reverse
    (∀ (taken : Nat) (fault : Nat → String → Fault),
      let refuses := fun n text => if n < taken then none else some (fault n text)
      ∃ result sink, writeTo files depth ts lineWidth (.sink (.ofRule refuses)) =
          (result, files, .sink sink) ∧
        CutShort calls (whole.1.mapError .ofWrite) refuses taken result sink) ∧
    (∀ refusal : String → Option Fault,
      ∃ result sink, writeTo files depth ts lineWidth (.sink (.ofRule fun _ => refusal)) =
          (result, files, .sink sink) ∧
        CutShort calls (whole.1.mapError .ofWrite) (fun _ => refusal)
          (calls.findIdx fun text => (refusal text).isSome) result sink) ∧
    ((∀ t ∈ ts, t.Genuine) → WidthOk lineWidth →
      (Token.levelsAll ts 1 ≤ depth → whole.1 = .ok ()) ∧
      (depth < Token.levelsAll ts 1 → whole.1 = .error (.writer .tooDeep))) := by
  intro whole calls
  obtain ⟨offered, ending, hoffers⟩ := writeAll_offers depth ts lineWidth
  obtain ⟨hending, hcalls⟩ := hoffers.unlimited
  have hwhole : Sink.Offers calls (whole.1.mapError Failure.ofWrite) Failure.ofOutput
      fun sink => ((writeAll depth ts lineWidth sink).1.mapError Failure.ofWrite,
        (writeAll depth ts lineWidth sink).2) := by
    simp only [calls, whole, hending, hcalls]
    exact hoffers.mapError Failure.ofWrite
  refine ⟨fun taken fault => ⟨_, _, rfl, ?_⟩, fun refusal => ⟨_, _, rfl, ?_⟩, fun hts hwidth => ?_⟩
  · apply hwhole.cutShort
    · intro i _ hlt
      exact if_pos hlt
    · intro _
      exact ⟨_, if_neg (Nat.lt_irrefl taken)⟩
  · apply hwhole.cutShort
    · intro i _ hlt
      simpa using List.not_of_lt_findIdx hlt
    · intro hlt
      exact Option.isSome_iff_exists.1 (List.findIdx_getElem (w := hlt))
  · obtain ⟨hok, hdeep⟩ := writeAll_eq hts hwidth Sink.unlimited_accepts depth
    exact ⟨fun hle => congrArg Prod.fst (hok hle), hdeep⟩

/-- The end of a line in a group that is repeated is refused: it is the last call, and the error has
the fault of the sink as its cause. -/
theorem writeTo_cutShort_line_end :
    let ts : List Token := [.number 2, .group [.operator "+", .number 3, .group [.operator "-"]]]
    let fault : Fault := .system "x"
    (∀ t ∈ ts, t.Genuine) ∧ WidthOk (some 3) ∧
    (writeAll writingLimit ts (some 3) .unlimited).1 = .ok () ∧
    ∃ sink, writeTo .empty writingLimit ts (some 3) (.sink (.failingAfter 3 fault)) =
        (.error (.error (.output [] (some fault))), .empty, .sink sink) ∧
      sink.calls.reverse = ["+", "-", "-", "\n"] ∧ sink.output = "+--" := by
  intro ts fault
  have hts : ∀ t ∈ ts, t.Genuine := by
    simp only [ts, List.forall_mem_cons]
    refine ⟨.number 2, .group ?_, by simp⟩
    simp only [List.forall_mem_cons]
    refine ⟨.operator "+", .number 3, .group ?_, by simp⟩
    exact List.forall_mem_singleton.2 (.operator "-")
  have hwidth : WidthOk (some 3) := by
    rintro _ ⟨⟩
    decide
  obtain ⟨hcount, -, hends⟩ := writeTo_cutShort .empty writingLimit ts (some 3)
  obtain ⟨hok, -⟩ := hends hts hwidth
  have hwhole := hok (by decide)
  have hcalls : (writeAll writingLimit ts (some 3) .unlimited).2.calls.reverse =
      ["+", "-", "-", "\n", "-", "+", "-", "\n", "-", "-"] := by decide +kernel
  obtain ⟨result, sink, hwrite, hcut⟩ := hcount 3 fun _ _ => fault
  rw [hcalls] at hcut
  obtain ⟨f, hf, hresult⟩ := hcut.fails (by decide)
  obtain rfl : fault = f := Option.some.inj hf
  have hcause : result = .error (.error (.output [] (some fault))) := hresult
  rw [hcause] at hwrite
  refine ⟨hts, hwidth, hwhole, sink, hwrite, hcut.made, ?_⟩
  rw [hcut.received]
  decide

/-! ### The limit -/

/-- Groups that are nested too deeply are found so before anything in them is written. -/
theorem writeTokens_nest {depth n : Nat} (h : depth < n) (t : Token) (w : Writer) :
    writeTokens [t.nest n] depth 1 w = (.error .tooDeep, w) := by
  induction n generalizing depth with
  | zero => exact absurd h (Nat.not_lt_zero _)
  | succ n ih =>
    have hgroup : writeToken (t.nest (n + 1)) depth 1 w = (.error .tooDeep, w) := by
      cases depth with
      | zero => rw [Token.nest, writeToken, Writer.repeated]
      | succ depth =>
        rw [Token.nest, writeToken, Writer.repeated, ih (Nat.lt_of_succ_lt_succ h)]
    exact (writeTokens_cons (fun _ => Token.noConfusion) [] depth 1 w).2 _ _ hgroup

/-- An operator in too many groups makes no calls at all, but writing it does not succeed on a sink
that takes one. -/
theorem writeTo_not_cutShort :
    let ts : List Token := [(Token.operator "+").nest 4000]
    let calls := (writeAll writingLimit ts none .unlimited).2.calls.reverse
    calls.length ≤ 1 ∧
    (writeTo .empty writingLimit ts none (.sink (.failingAfter 1 (.system "x")))).1 =
      .error (.error (.tooDeep "written")) := by
  intro ts calls
  have hwrite : ∀ sink, writeAll writingLimit ts none sink = (.error (.writer .tooDeep), sink) := by
    intro sink
    have hdeep : writeTokens ts writingLimit 1 ⟨sink, none⟩ = (.error .tooDeep, ⟨sink, none⟩) :=
      writeTokens_nest (by decide) (.operator "+") _
    simp only [writeAll, hdeep]
    rfl
  refine ⟨?_, ?_⟩
  · simp only [calls, hwrite]
    decide
  · simp only [writeTo, hwrite]
    rfl

end Unroll
