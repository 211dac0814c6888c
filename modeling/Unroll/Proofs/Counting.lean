import Mathlib.Data.List.Induction
import Unroll.Proofs.Scripts

/-!
# Counters that are shared

Tokens may be written by several calls that go on in each other's lines, because they share a
counter. The line is open after every call, also after one that has failed, unless it was the end of
a line that was refused. Then the counter stands at the width of lines, which it never meets again.

* `CounterCall`, `CounterCall.run` — calls that share a counter, each with a sink of its own;
* `CounterCall.EndRefused` — a call is stopped at the end of a line;
* `CounterCall.after_open`, `CounterCall.after_full` — what one call makes of a line;
* `CounterCall.run_open_or` — what a whole run makes of it;
* `CounterCall.run_lines` — the same with the lines that are written after it.
-/

namespace Unroll

/-! ### Full lines -/

namespace Writer

/-- A counter that is past its width stays there, and nothing else depends on it: what is written is
written as it is without lines. -/
structure Unbroken (counter : LineCounter) (plain counted : Except Failure Unit × Writer) :
    Prop where
  result : counted.1 = plain.1
  sink : counted.2.sink = plain.2.sink
  counter : ∃ after, counted.2.counter = some after ∧ after.width = counter.width ∧
    counter.length ≤ after.length

theorem unbroken_putAll {counter : LineCounter} (h : counter.width ≤ counter.length)
    (sink : Sink) (ops : List String) :
    Unbroken counter (putAll ops ⟨sink, none⟩) (putAll ops ⟨sink, some counter⟩) := by
  induction ops generalizing sink counter with
  | nil => exact ⟨rfl, rfl, counter, rfl, rfl, Nat.le_refl _⟩
  | cons symbol ops ih =>
    rcases hwrite : sink.write symbol with ⟨f | _, next⟩
    · simp only [putAll, putOperator, put, hwrite]
      exact ⟨rfl, rfl, counter, rfl, rfl, Nat.le_refl _⟩
    · let counted : LineCounter := { counter with length := counter.length + 1 }
      have hne : ¬ counter.length + 1 = counter.width := by omega
      have hfull : counted.width ≤ counted.length := Nat.le_succ_of_le h
      obtain ⟨hresult, hsink, after, hafter, hwidth, hle⟩ := ih hfull next
      simp only [putAll, putOperator, put, hwrite, advance, if_neg hne]
      exact ⟨hresult, hsink, after, hafter, hwidth, Nat.le_of_succ_le hle⟩

/-- Tokens that go on in a line past its width are written as they are without lines. -/
theorem unbroken_writeTokens {counter : LineCounter} (h : counter.width ≤ counter.length)
    (sink : Sink) (depth : Nat) (ts : List Token) :
    Unbroken counter (writeTokens ts depth 1 ⟨sink, none⟩)
      (writeTokens ts depth 1 ⟨sink, some counter⟩) := by
  obtain ⟨s, hs⟩ := follows_writeTokens ts depth 1
  obtain ⟨hresult, hsink, hcounter⟩ := unbroken_putAll h sink s.ops
  rw [hs, hs]
  constructor
  case result => rw [Script.play_fst, Script.play_fst, hresult]
  case sink => rw [Script.play_snd, Script.play_snd, hsink]
  case counter =>
    rw [Script.play_snd]
    exact hcounter

end Writer

/-! ### Calls -/

/-- A call on a counter that several calls share. Each of them has a sink of its own, which may be
the one that an earlier call has left. -/
inductive CounterCall where
  /-- writes tokens; groups may be nested `depth` deep -/
  | tokens (depth : Nat) (ts : List Token) (sink : Sink)
  /-- counts one operator -/
  | advance (sink : Sink)

namespace CounterCall

/-- The sink of a call. -/
def sink : CounterCall → Sink
  | tokens _ _ sink | advance sink => sink

/-- Makes a call. -/
def perform : CounterCall → LineCounter → Except Writer.Failure Unit × Writer
  | tokens depth ts sink, counter => writeTokens ts depth 1 ⟨sink, some counter⟩
  | advance sink, counter => Writer.advance ⟨sink, some counter⟩ counter

/-- The counter after a call, whether it has failed or not. -/
def after (call : CounterCall) (counter : LineCounter) : LineCounter :=
  (call.perform counter).2.counter.getD counter

/-- The counter after calls, one after the other. -/
def run (calls : List CounterCall) (counter : LineCounter) : LineCounter :=
  calls.foldl (fun counter call => call.after counter) counter

/-- A call has failed because its sink has refused the end of a line, after which nothing else was
written. -/
def EndRefused (call : CounterCall) (counter : LineCounter) : Prop :=
  ∃ f count, call.sink.refuses count "\n" = some f ∧
    (call.perform counter).1 = .error (.output f) ∧
    (call.perform counter).2.sink.count = count + 1 ∧
    (call.perform counter).2.sink.calls.head? = some "\n"

/-- What a call makes of an open line: it is open after it, unless its end was refused. -/
theorem after_open {counter : LineCounter} (h : counter.length < counter.width)
    (call : CounterCall) :
    (call.after counter).width = counter.width ∧
      ((call.after counter).length < counter.width ∨
        (call.after counter).length = counter.width ∧ call.EndRefused counter) := by
  have hforward : ∀ n, (counter.forward n).length < counter.width :=
    fun n => LineCounter.forward_valid h n
  cases call with
  | tokens depth ts sink =>
    have hopen : Writer.LineOpen ⟨sink, some counter⟩ := by
      intro c hc
      obtain rfl := Option.some.inj hc
      exact h
    obtain ⟨s, hs⟩ := follows_writeTokens ts depth 1
    have hplay := hs ⟨sink, some counter⟩
    have hoffered := Writer.offered_putAll hopen s.ops
    generalize hput : Writer.putAll s.ops ⟨sink, some counter⟩ = done at hoffered
    cases hoffered with
    | taken _ =>
      rw [Script.play_of_putAll hput] at hplay
      simp only [after, perform, hplay, Option.map_some, Option.getD_some]
      exact ⟨rfl, .inl (hforward _)⟩
    | refused _ count =>
      rw [Script.play_of_putAll_error hput] at hplay
      simp only [after, perform, hplay, Option.map_some, Option.getD_some]
      exact ⟨rfl, .inl (hforward _)⟩
    | @endRefused f last c hoffer hc hend =>
      obtain rfl := Option.some.inj hc
      have hrule : last.refuses = sink.refuses := by
        have hkept := Sink.refuses_offer sink (Writer.callsFor ⟨sink, some counter⟩ s.ops)
        rwa [hoffer] at hkept
      rw [hrule] at hend
      rw [Script.play_of_putAll_error hput] at hplay
      simp only [EndRefused, after, perform, hplay, Option.getD_some]
      exact ⟨trivial, .inr ⟨trivial, f, last.count, hend, rfl, rfl, rfl⟩⟩
  | advance sink =>
    have hadvanced := Writer.advanced ⟨sink, some counter⟩ h
    generalize hdone : Writer.advance ⟨sink, some counter⟩ counter = done at hadvanced
    cases hadvanced with
    | goesOn hless =>
      simp only [after, perform, hdone, Option.getD_some]
      exact ⟨trivial, .inl hless⟩
    | ended hfull hline =>
      simp only [after, perform, hdone, Option.getD_some]
      exact ⟨trivial, .inl (Nat.lt_of_le_of_lt (Nat.zero_le _) h)⟩
    | @endRefused f hfull hline =>
      simp only [EndRefused, after, perform, hdone, Option.getD_some]
      exact ⟨trivial, .inr ⟨trivial, f, sink.count, hline, rfl, rfl, rfl⟩⟩

/-- A call leaves a line past its width where it is, or further. -/
theorem after_full {counter : LineCounter} (h : counter.width ≤ counter.length)
    (call : CounterCall) :
    (call.after counter).width = counter.width ∧ counter.length ≤ (call.after counter).length := by
  cases call with
  | tokens depth ts sink =>
    obtain ⟨-, -, after, hafter, hwidth, hle⟩ := Writer.unbroken_writeTokens h sink depth ts
    have hcounter : (tokens depth ts sink).after counter = after := by
      rw [CounterCall.after, perform, hafter, Option.getD_some]
    rw [hcounter]
    exact ⟨hwidth, hle⟩
  | advance sink =>
    have hne : ¬ counter.length + 1 = counter.width := by omega
    simp only [after, perform, Writer.advance, if_neg hne, Option.getD_some]
    exact ⟨trivial, Nat.le_succ _⟩

/-- In a run, a line is open until its end is refused, and past its width ever after. -/
theorem run_open_or {fresh : LineCounter} (h : fresh.length < fresh.width)
    (calls : List CounterCall) :
    (run calls fresh).width = fresh.width ∧
      ((run calls fresh).length < fresh.width ∨
        fresh.width ≤ (run calls fresh).length ∧ ∃ before call rest,
          calls = before ++ call :: rest ∧ (run before fresh).length < fresh.width ∧
            call.EndRefused (run before fresh)) := by
  induction calls using List.reverseRecOn with
  | nil => exact ⟨rfl, .inl h⟩
  | append_singleton calls call ih =>
    obtain ⟨hwidth, hlength⟩ := ih
    have hrun : run (calls ++ [call]) fresh = call.after (run calls fresh) := by
      rw [run, List.foldl_append, List.foldl_cons, List.foldl_nil, ← run]
    rw [hrun]
    rcases hlength with hopen | ⟨hfull, before, first, rest, hcalls, hbefore, hend⟩
    · obtain ⟨hsame, hafter⟩ := after_open (by rwa [hwidth]) call
      rw [hwidth] at hsame hafter
      refine ⟨hsame, ?_⟩
      rcases hafter with hafter | ⟨hat, hend⟩
      · exact .inl hafter
      · exact .inr ⟨Nat.le_of_eq hat.symm, calls, call, [], rfl, hopen, hend⟩
    · obtain ⟨hsame, hle⟩ := after_full (by rwa [hwidth]) call
      rw [hwidth] at hsame
      refine ⟨hsame, .inr ⟨Nat.le_trans hfull hle, before, first, rest ++ [call], ?_, hbefore, hend⟩⟩
      rw [hcalls, List.append_assoc, List.cons_append]

/-- A counter is valid after every run of calls that share it, whether they have failed or not, and
what is written later is broken into lines of its width, unless some call was stopped by a sink that
refused the end of a line. From then on the counter is past its width, and no line is ever ended. -/
theorem run_lines {width : Int} (hwidth : 1 ≤ width) (calls : List CounterCall) :
    ∃ fresh, LineCounter.ofWidth? width = some fresh ∧
      let counter := run calls fresh
      counter.width = width ∧
      (counter.length < counter.width ∨
        counter.width ≤ counter.length ∧ ∃ before call rest, calls = before ++ call :: rest ∧
          (run before fresh).length < (run before fresh).width ∧
          call.EndRefused (run before fresh)) ∧
      ((∀ call ∈ calls, ∀ count, call.sink.refuses count "\n" = none) →
        counter.length < counter.width) ∧
      ∀ (ts : List Token) (sink : Sink) (depth : Nat), (∀ t ∈ ts, t.Genuine) → sink.Accepts →
        Token.levelsAll ts 1 ≤ depth →
        let ops := Token.expandAll ts 1
        (counter.length < counter.width →
          writeTokens ts depth 1 ⟨sink, some counter⟩ =
            (.ok (), ⟨sink.after (counter.wrapped ops), some (counter.forward ops.length)⟩)) ∧
        (counter.width ≤ counter.length →
          (writeTokens ts depth 1 ⟨sink, some counter⟩).1 = .ok () ∧
          (writeTokens ts depth 1 ⟨sink, some counter⟩).2.sink = sink.after ops) := by
  have hcounter : LineCounter.ofWidth? width = some ⟨width.toNat, 0⟩ := if_neg (by omega)
  refine ⟨_, hcounter, ?_⟩
  intro counter
  have hfresh : (⟨width.toNat, 0⟩ : LineCounter).length < width.toNat := by
    simp only
    omega
  obtain ⟨hsame, hlength⟩ := run_open_or hfresh calls
  refine ⟨?_, ?_, ?_, ?_⟩
  · rw [hsame]
    exact Int.toNat_of_nonneg (by omega)
  · rw [hsame]
    rcases hlength with hopen | ⟨hfull, before, call, rest, hcalls, hbefore, hend⟩
    · exact .inl hopen
    · refine .inr ⟨hfull, before, call, rest, hcalls, ?_, hend⟩
      rw [(run_open_or hfresh before).1]
      exact hbefore
  · intro htaken
    rw [hsame]
    rcases hlength with hopen | ⟨-, before, call, rest, hcalls, -, f, count, hrefused, -⟩
    · exact hopen
    · have hmem : call ∈ calls := by
        rw [hcalls]
        exact List.mem_append_right _ List.mem_cons_self
      rw [htaken call hmem count] at hrefused
      cases hrefused
  · intro ts sink depth hts hsink hdepth ops
    have hwrites : ∀ t ∈ ts, t.Writes := fun t ht => (hts t ht).writes
    constructor
    · intro hopen
      have hready : Writer.Ready ⟨sink, some counter⟩ := by
        refine ⟨hsink, fun c hc => ?_⟩
        obtain rfl := Option.some.inj hc
        exact hopen
      exact (writeTokens_eq hwrites depth 1 hready).1 hdepth
    · intro hfull
      have hready : Writer.Ready ⟨sink, none⟩ := ⟨hsink, by simp⟩
      have hplain := (writeTokens_eq hwrites depth 1 hready).1 hdepth
      obtain ⟨hresult, hafter, -⟩ := Writer.unbroken_writeTokens hfull sink depth ts
      rw [hresult, hafter, hplain]
      exact ⟨rfl, rfl⟩

/-- An operator is refused in a line that has begun, and the next call goes on in this line. -/
theorem run_lines_operator_refused :
    let plus : List Token := [.operator "+"]
    let calls := [tokens writingLimit plus .unlimited,
      tokens writingLimit plus (.failingAfter 0 (.system "x"))]
    let ts : List Token := [.number 3, .operator "-"]
    (1 : Int) ≤ 2 ∧ (∀ t ∈ ts, t.Genuine) ∧ Sink.unlimited.Accepts ∧
    run calls ⟨2, 0⟩ = ⟨2, 1⟩ ∧
    writeTokens ts writingLimit 1 ⟨.unlimited, some (run calls ⟨2, 0⟩)⟩ =
      (.ok (), ⟨Sink.unlimited.after ["-", "\n", "-", "-", "\n"], some ⟨2, 0⟩⟩) := by
  intro plus calls ts
  have hwidth : (1 : Int) ≤ 2 := by decide
  have hts : ∀ t ∈ ts, t.Genuine := by
    simp only [ts, List.forall_mem_cons]
    exact ⟨.number 3, .operator "-", by simp⟩
  have hsink : Sink.unlimited.Accepts := fun _ _ => rfl
  have hrun : run calls ⟨2, 0⟩ = ⟨2, 1⟩ := by decide
  have hops : Token.expandAll ts 1 = ["-", "-", "-"] := rfl
  obtain ⟨fresh, hfresh, -, -, -, hlines⟩ := run_lines hwidth calls
  obtain rfl : ⟨2, 0⟩ = fresh := Option.some.inj hfresh
  have hwrite := (hlines ts .unlimited writingLimit hts hsink (by decide)).1
  rw [hrun, hops] at hwrite
  rw [hrun]
  exact ⟨hwidth, hts, hsink, rfl, hwrite (by decide)⟩

/-- The end of a line is refused: the counter is not valid after that, and the operators that are
written to another sink then are all in one line. -/
theorem run_not_valid :
    let call := tokens writingLimit [.operator "+"] (.failingAfter 1 (.system "x"))
    LineCounter.ofWidth? 1 = some ⟨1, 0⟩ ∧ ¬ (run [call] ⟨1, 0⟩).length < (run [call] ⟨1, 0⟩).width ∧
    (writeTokens [.number 3, .operator "-"] writingLimit 1
      ⟨.unlimited, some (run [call] ⟨1, 0⟩)⟩).2.sink.output = "---" := by
  decide

end CounterCall

end Unroll
