import Unroll.Emit

/-!
# What is written

What tokens spell out, and the calls that writing it makes on a sink.

* `Token.expandAll` — the operators that tokens spell out, each as often as it is multiplied;
* `LineCounter.wrapped` — the same with a call for the end of every full line;
* `Token.levelsAll` — how many groups are written inside of each other;
* `Writer.emitted` — a writer after operators that its sink has taken;
* `Token.Writes`, `writeTokens_eq` — the writer makes just these calls, or finds the groups too
  deep;
* `writeTokens_expands` — the same of a sink and a counter, with the lines that come of it.
-/

namespace Unroll

namespace Token

/-! ### Expansion -/

mutual
/-- The operators of a token that is multiplied. -/
def expand : Token → (times : Nat) → List String
  | .number _, _ => []
  | .operator symbol, times => List.replicate times symbol
  | .group tokens, times => (List.replicate times (expandAll tokens 1)).flatten
  | .foreign _, _ => []
/-- The operators that tokens spell out, the first of which is multiplied. A number takes the place
of the multiplier, anything else resets it to one. -/
def expandAll : List Token → (multiplier : Int) → List String
  | [], _ => []
  | .number n :: ts, _ => expandAll ts n
  | t :: ts, multiplier => t.expand multiplier.toNat ++ expandAll ts 1
end

mutual
/-- How many groups are written inside of each other for a token that is multiplied. -/
def levels : Token → (times : Nat) → Nat
  | .group _, 0 => 0
  | .group tokens, _ + 1 => levelsAll tokens 1 + 1
  | .number _, _ | .operator _, _ | .foreign _, _ => 0
/-- How many groups are written inside of each other for tokens. A group that is multiplied by
nothing is not looked into. -/
def levelsAll : List Token → (multiplier : Int) → Nat
  | [], _ => 0
  | .number n :: ts, _ => levelsAll ts n
  | t :: ts, multiplier => max (t.levels multiplier.toNat) (levelsAll ts 1)
end

/-- A token multiplies the next one, or is multiplied itself. -/
theorem number_or (t : Token) : (∃ n, t = .number n) ∨ ∀ n, t ≠ .number n := by
  cases t with
  | number n => exact .inl ⟨n, rfl⟩
  | _ => exact .inr fun _ => Token.noConfusion

theorem expandAll_cons {t : Token} (ht : ∀ n, t ≠ .number n) (ts : List Token)
    (multiplier : Int) :
    expandAll (t :: ts) multiplier = t.expand multiplier.toNat ++ expandAll ts 1 := by
  rw [expandAll]
  exact ht

theorem levelsAll_cons {t : Token} (ht : ∀ n, t ≠ .number n) (ts : List Token)
    (multiplier : Int) :
    levelsAll (t :: ts) multiplier = max (t.levels multiplier.toNat) (levelsAll ts 1) := by
  rw [levelsAll]
  exact ht

/-- Nothing in a token is no token. -/
inductive Genuine : Token → Prop where
  | number (n : Int) : Genuine (.number n)
  | operator (symbol : String) : Genuine (.operator symbol)
  | group {ts : List Token} (h : ∀ t ∈ ts, Genuine t) : Genuine (.group ts)

end Token

/-! ### Lines -/

namespace LineCounter

/-- The calls that write the operator with the number `k`: if it makes a line full, the line is
ended. -/
def calls (counter : LineCounter) : String × Nat → List String
  | (symbol, k) =>
    if (counter.length + k) % counter.width = 0 then [symbol, "\n"] else [symbol]

/-- The calls that write operators in lines. The operators are counted from one. -/
def wrapped (counter : LineCounter) (ops : List String) : List String :=
  (ops.zipIdx 1).flatMap counter.calls

/-- The counter after so many operators. -/
def forward (counter : LineCounter) (count : Nat) : LineCounter :=
  { counter with length := (counter.length + count) % counter.width }

/-- Only the place in the line matters to the calls. -/
theorem flatMap_calls {counter counter' : LineCounter} (hwidth : counter'.width = counter.width)
    {i j : Nat} (h : (counter'.length + i) % counter.width = (counter.length + j) % counter.width)
    (ops : List String) :
    (ops.zipIdx i).flatMap counter'.calls = (ops.zipIdx j).flatMap counter.calls := by
  induction ops generalizing i j with
  | nil => rfl
  | cons symbol ops ih =>
    have hnext : (counter'.length + (i + 1)) % counter.width =
        (counter.length + (j + 1)) % counter.width := by
      rw [← Nat.add_assoc, ← Nat.add_assoc, Nat.add_mod, h, ← Nat.add_mod]
    rw [List.zipIdx_cons, List.zipIdx_cons, List.flatMap_cons, List.flatMap_cons, ih hnext, calls,
      calls, hwidth, h]

/-- Writing goes on in the line where it has stopped. -/
theorem wrapped_append (counter : LineCounter) (xs ys : List String) :
    counter.wrapped (xs ++ ys) = counter.wrapped xs ++ (counter.forward xs.length).wrapped ys := by
  have hys : (ys.zipIdx 1).flatMap (counter.forward xs.length).calls =
      (ys.zipIdx (1 + xs.length)).flatMap counter.calls := by
    have hwidth : (counter.forward xs.length).width = counter.width := rfl
    refine flatMap_calls hwidth ?_ ys
    rw [forward, Nat.mod_add_mod, Nat.add_assoc, Nat.add_comm xs.length]
  rw [wrapped, List.zipIdx_append, List.flatMap_append, wrapped, wrapped, hys]

theorem wrapped_cons (counter : LineCounter) (symbol : String) (ops : List String) :
    counter.wrapped (symbol :: ops) =
      counter.calls (symbol, 1) ++ (counter.forward 1).wrapped ops := by
  have h := wrapped_append counter [symbol] ops
  simpa only [wrapped, List.singleton_append, List.zipIdx_cons, List.zipIdx_nil, List.flatMap_cons,
    List.flatMap_nil, List.append_nil, List.length_singleton] using h

theorem forward_forward (counter : LineCounter) (m n : Nat) :
    (counter.forward m).forward n = counter.forward (m + n) := by
  simp only [forward, Nat.mod_add_mod, Nat.add_assoc]

theorem forward_zero {counter : LineCounter} (h : counter.length < counter.width) :
    counter.forward 0 = counter := by
  rw [forward, Nat.add_zero, Nat.mod_eq_of_lt h]

theorem forward_valid {counter : LineCounter} (h : counter.length < counter.width) (n : Nat) :
    (counter.forward n).length < (counter.forward n).width :=
  Nat.mod_lt _ (Nat.lt_of_le_of_lt (Nat.zero_le _) h)

/-- Lines of operators with one character are full but for the last, also if something stands in
the first of them already. Without the ends of lines, the operators are left. -/
theorem lines_wrapped {counter : LineCounter} (hvalid : counter.length < counter.width)
    {ops : List String} (hops : ∀ symbol ∈ ops, ∃ c, c ≠ '\n' ∧ symbol = String.singleton c)
    {line : List Char} (hline : '\n' ∉ line) (hlength : line.length = counter.length) :
    ∃ full last, (line ++ (counter.wrapped ops).flatMap String.toList).splitOn '\n' =
        full ++ [last] ∧
      (∀ l ∈ full, l.length = counter.width) ∧
      last.length = (counter.length + ops.length) % counter.width ∧
      full.flatten ++ last = line ++ ops.flatMap String.toList := by
  induction ops generalizing counter line with
  | nil =>
    refine ⟨[], line, ?_, nofun, ?_, ?_⟩
    · rw [wrapped, List.zipIdx_nil, List.flatMap_nil, List.flatMap_nil, List.append_nil,
        List.splitOn_eq_singleton hline, List.nil_append]
    · rw [List.length_nil, Nat.add_zero, Nat.mod_eq_of_lt hvalid, hlength]
    · rw [List.flatMap_nil, List.append_nil, List.flatten_nil, List.nil_append]
  | cons symbol ops ih =>
    obtain ⟨⟨c, hc, rfl⟩, hrest⟩ := List.forall_mem_cons.1 hops
    have hline' : '\n' ∉ line ++ [c] := by
      simp [hline, Ne.symm hc]
    have hcount : (counter.forward 1).length + ops.length =
        (counter.length + 1) % counter.width + ops.length := rfl
    have hend : (counter.length + (ops.length + 1)) % counter.width =
        ((counter.forward 1).length + ops.length) % counter.width := by
      rw [hcount, Nat.mod_add_mod, Nat.add_assoc, Nat.add_comm 1]
    rw [wrapped_cons, List.length_cons, hend, List.flatMap_append, List.flatMap_cons,
      String.toList_singleton]
    by_cases hfull : counter.length + 1 = counter.width
    · -- the operator makes the line full, and the next one begins another line
      have hmod : (counter.length + 1) % counter.width = 0 := by rw [hfull, Nat.mod_self]
      obtain ⟨full, last, hsplit, hwidth, hlast, hflat⟩ :=
        ih (forward_valid hvalid 1) hrest List.not_mem_nil hmod.symm
      refine ⟨(line ++ [c]) :: full, last, ?_, ?_, hlast, ?_⟩
      · have htext : line ++ ((counter.calls (String.singleton c, 1)).flatMap String.toList ++
            ((counter.forward 1).wrapped ops).flatMap String.toList) =
            (line ++ [c]) ++ '\n' :: ((counter.forward 1).wrapped ops).flatMap String.toList := by
          simp [calls, hmod]
        rw [List.nil_append] at hsplit
        rw [htext, List.splitOn_append_cons_self_of_not_mem hline', hsplit, List.cons_append]
      · refine List.forall_mem_cons.2 ⟨?_, hwidth⟩
        rw [List.length_append, List.length_singleton, hlength, hfull]
      · rw [List.flatten_cons, List.append_assoc, hflat, List.append_assoc, List.nil_append]
    · -- the next operator stands in the same line
      have hmod : (counter.length + 1) % counter.width = counter.length + 1 :=
        Nat.mod_eq_of_lt (by omega)
      have hlength' : (line ++ [c]).length = (counter.forward 1).length := by
        rw [List.length_append, List.length_singleton, hlength]
        exact hmod.symm
      obtain ⟨full, last, hsplit, hwidth, hlast, hflat⟩ :=
        ih (forward_valid hvalid 1) hrest hline' hlength'
      refine ⟨full, last, ?_, hwidth, hlast, ?_⟩
      · have htext : line ++ ((counter.calls (String.singleton c, 1)).flatMap String.toList ++
            ((counter.forward 1).wrapped ops).flatMap String.toList) =
            (line ++ [c]) ++ ((counter.forward 1).wrapped ops).flatMap String.toList := by
          simp [calls, hmod]
        rw [htext, hsplit]
      · rw [hflat, List.append_assoc]

end LineCounter

/-! ### Sinks and writers -/

/-- A sink after texts that it has taken. -/
def Sink.after (sink : Sink) (texts : List String) : Sink :=
  { sink with
    calls := texts.reverse ++ sink.calls
    count := sink.count + texts.length
    received := texts.reverse ++ sink.received
    counted := by simp [sink.counted, Nat.add_comm] }

/-- A sink takes every text. -/
def Sink.Accepts (sink : Sink) : Prop := ∀ count text, sink.refuses count text = none

namespace Sink

theorem after_after (sink : Sink) (xs ys : List String) :
    (sink.after xs).after ys = sink.after (xs ++ ys) := by
  simp [after, Nat.add_assoc]

theorem Accepts.write {sink : Sink} (h : sink.Accepts) (text : String) :
    sink.write text = (.ok (), sink.after [text]) := by
  simp only [Sink.write, h sink.count text]
  rfl

theorem Accepts.after {sink : Sink} (h : sink.Accepts) (texts : List String) :
    (sink.after texts).Accepts := h

end Sink

namespace Writer

/-- A writer whose sink takes everything, and whose line is not full. -/
structure Ready (w : Writer) : Prop where
  accepts : w.sink.Accepts
  open_line : ∀ counter ∈ w.counter, counter.length < counter.width

/-- The calls that write operators, in lines if they are counted. -/
def callsFor (w : Writer) (ops : List String) : List String :=
  match w.counter with
  | none => ops
  | some counter => counter.wrapped ops

/-- A writer after operators that its sink has taken. -/
def emitted (w : Writer) (ops : List String) : Writer where
  sink := w.sink.after (w.callsFor ops)
  counter := w.counter.map (·.forward ops.length)

variable {w : Writer}

theorem Ready.emitted (h : w.Ready) (ops : List String) : (w.emitted ops).Ready := by
  refine ⟨h.accepts, fun counter hcounter => ?_⟩
  obtain ⟨before, hbefore, rfl⟩ := Option.map_eq_some_iff.1 hcounter
  exact LineCounter.forward_valid (h.open_line before hbefore) _

theorem emitted_nil (h : w.Ready) : w.emitted [] = w := by
  obtain ⟨sink, counter⟩ := w
  cases counter with
  | none => rfl
  | some counter =>
    have hforward := LineCounter.forward_zero (h.open_line counter rfl)
    simp only [Writer.emitted, Option.map_some, List.length_nil, hforward]
    rfl

theorem emitted_append (w : Writer) (xs ys : List String) :
    (w.emitted xs).emitted ys = w.emitted (xs ++ ys) := by
  obtain ⟨sink, counter⟩ := w
  cases counter with
  | none => simp only [Writer.emitted, callsFor, Option.map_none, Sink.after_after]
  | some counter =>
    simp only [Writer.emitted, callsFor, Option.map_some, Sink.after_after,
      LineCounter.wrapped_append, LineCounter.forward_forward, List.length_append]

/-- An operator is written, and its line is ended if it has become full. -/
theorem putOperator_eq (h : w.Ready) (symbol : String) :
    w.putOperator symbol = (.ok (), w.emitted [symbol]) := by
  obtain ⟨sink, counter⟩ := w
  have hput := h.accepts.write symbol
  cases counter with
  | none => simp only [putOperator, put, hput, Writer.emitted, callsFor, Option.map_none]
  | some counter =>
    have hlt := h.open_line counter rfl
    have hend := (h.accepts.after [symbol]).write "\n"
    simp only [putOperator, put, hput, advance, hend, Writer.emitted, callsFor, Option.map_some,
      LineCounter.wrapped, List.zipIdx_cons, List.zipIdx_nil, List.flatMap_cons, List.flatMap_nil,
      List.append_nil, LineCounter.calls, LineCounter.forward, List.length_singleton]
    by_cases hfull : counter.length + 1 = counter.width
    · simp only [hfull, if_true, Nat.mod_self, Sink.after_after, List.cons_append, List.nil_append]
    · have hmod : (counter.length + 1) % counter.width = counter.length + 1 :=
        Nat.mod_eq_of_lt (by omega)
      simp only [hmod, if_neg hfull, if_neg (Nat.succ_ne_zero counter.length)]

/-- What writes the same operators each time writes them as often as it is repeated. -/
theorem repeated_eq {act : Writer → Except Failure Unit × Writer} {ops : List String}
    (hact : ∀ w : Writer, w.Ready → act w = (.ok (), w.emitted ops)) (times : Nat)
    (h : w.Ready) :
    repeated act times w = (.ok (), w.emitted (List.replicate times ops).flatten) := by
  induction times generalizing w with
  | zero =>
    rw [List.replicate_zero, List.flatten_nil, emitted_nil h]
    rfl
  | succ times ih =>
    rw [List.replicate_succ, List.flatten_cons, ← emitted_append]
    simp only [repeated, hact w h]
    exact ih (h.emitted ops)

end Writer

/-! ### Writing tokens -/

/-- A token is written as its expansion says, unless its groups are nested too deeply. -/
def Token.Writes (t : Token) : Prop :=
  ∀ (depth times : Nat) (w : Writer), w.Ready →
    (t.levels times ≤ depth →
      writeToken t depth times w = (.ok (), w.emitted (t.expand times))) ∧
    (depth < t.levels times → (writeToken t depth times w).1 = .error .tooDeep)

/-- A token that is no number is written as often as it is multiplied, and then the others. -/
theorem writeTokens_cons {t : Token} (ht : ∀ n, t ≠ .number n) (ts : List Token) (depth : Nat)
    (multiplier : Int) (w : Writer) :
    (∀ after, writeToken t depth multiplier.toNat w = (.ok (), after) →
      writeTokens (t :: ts) depth multiplier w = writeTokens ts depth 1 after) ∧
    (∀ e after, writeToken t depth multiplier.toNat w = (.error e, after) →
      writeTokens (t :: ts) depth multiplier w = (.error e, after)) := by
  refine ⟨fun after hok => ?_, fun e after herror => ?_⟩
  · cases t with
    | number n => exact absurd rfl (ht n)
    | operator _ => simp only [writeTokens, hok]
    | group _ => simp only [writeTokens, hok]
    | foreign _ => simp only [writeTokens, hok]
  · cases t with
    | number n => exact absurd rfl (ht n)
    | operator _ => simp only [writeTokens, herror]
    | group _ => simp only [writeTokens, herror]
    | foreign _ => simp only [writeTokens, herror]

/-- Tokens are written as their expansion says if each of them is. -/
theorem writeTokens_eq {ts : List Token} (h : ∀ t ∈ ts, t.Writes) (depth : Nat)
    (multiplier : Int) {w : Writer} (hw : w.Ready) :
    (Token.levelsAll ts multiplier ≤ depth →
      writeTokens ts depth multiplier w = (.ok (), w.emitted (Token.expandAll ts multiplier))) ∧
    (depth < Token.levelsAll ts multiplier →
      (writeTokens ts depth multiplier w).1 = .error .tooDeep) := by
  induction ts generalizing multiplier w with
  | nil =>
    refine ⟨fun _ => ?_, fun hlt => absurd hlt (Nat.not_lt_zero _)⟩
    rw [Token.expandAll, Writer.emitted_nil hw, writeTokens]
  | cons t ts ih =>
    obtain ⟨ht, hts⟩ := List.forall_mem_cons.1 h
    obtain ⟨n, rfl⟩ | hne := t.number_or
    · rw [Token.levelsAll, Token.expandAll, writeTokens]
      exact ih hts n hw
    · obtain ⟨hok, hdeep⟩ := ht depth multiplier.toNat w hw
      obtain ⟨hnext, herror⟩ := writeTokens_cons hne ts depth multiplier w
      obtain ⟨ihOk, ihDeep⟩ := ih hts 1 (hw.emitted (t.expand multiplier.toNat))
      rw [Token.levelsAll_cons hne, Token.expandAll_cons hne]
      refine ⟨fun hle => ?_, fun hlt => ?_⟩
      · obtain ⟨hhead, htail⟩ := Nat.max_le.1 hle
        rw [hnext _ (hok hhead), ihOk htail, Writer.emitted_append]
      · by_cases hhead : t.levels multiplier.toNat ≤ depth
        · rw [hnext _ (hok hhead)]
          exact ihDeep (by omega)
        · exact congrArg Prod.fst (herror _ _ (Prod.ext (hdeep (Nat.lt_of_not_le hhead)) rfl))

/-- Every token is written as its expansion says. -/
theorem Token.Genuine.writes {t : Token} (h : t.Genuine) : t.Writes := by
  induction h with
  | number n =>
    intro depth times w hw
    refine ⟨fun _ => ?_, fun hlt => absurd hlt (Nat.not_lt_zero _)⟩
    rw [Token.expand, Writer.emitted_nil hw, writeToken]
  | operator symbol =>
    intro depth times w hw
    refine ⟨fun _ => ?_, fun hlt => absurd hlt (Nat.not_lt_zero _)⟩
    have hput := Writer.repeated_eq (fun w hw => Writer.putOperator_eq hw symbol) times hw
    rw [writeToken, hput, Token.expand]
    simp
  | @group ts _ ih =>
    intro depth times w hw
    cases times with
    | zero =>
      refine ⟨fun _ => ?_, fun hlt => absurd hlt (Nat.not_lt_zero _)⟩
      rw [Token.expand, List.replicate_zero, List.flatten_nil, Writer.emitted_nil hw]
      -- a group that is not written at all may be nested as deeply as it likes
      cases depth <;> rw [writeToken, Writer.repeated]
    | succ times =>
      rw [Token.levels]
      cases depth with
      | zero =>
        refine ⟨fun hle => absurd hle (Nat.not_succ_le_zero _), fun _ => ?_⟩
        rw [writeToken, Writer.repeated]
      | succ depth =>
        refine ⟨fun hle => ?_, fun hlt => ?_⟩
        · have hinner := fun (w : Writer) (hw : w.Ready) =>
            (writeTokens_eq ih depth 1 hw).1 (Nat.le_of_succ_le_succ hle)
          rw [writeToken, Writer.repeated_eq hinner (times + 1) hw, Token.expand]
        · have herror := (writeTokens_eq ih depth 1 hw).2 (Nat.lt_of_succ_lt_succ hlt)
          rw [writeToken, Writer.repeated]
          rcases hinner : writeTokens ts depth 1 w with ⟨result, after⟩
          rw [hinner] at herror
          obtain rfl : result = .error .tooDeep := herror
          rfl

/-- Whatever stands in the current line, and however groups are nested and multiplied, the writer
makes just the calls for the operators that the tokens spell out, in order, and ends the line just
after each operator that makes it full. Only if more groups would be written inside of each other
than may be, they are found too deep. Where all operators are single characters, every line but the
last is full, and nothing but the ends of lines is added to them. -/
theorem writeTokens_expands {ts : List Token} (hts : ∀ t ∈ ts, t.Genuine) {sink : Sink}
    (hsink : sink.Accepts) {counter : Option LineCounter}
    (hvalid : ∀ c ∈ counter, c.length < c.width) (depth : Nat) :
    let ops := Token.expandAll ts 1
    let calls := counter.elim ops fun c => (ops.zipIdx 1).flatMap fun (symbol, k) =>
      if (c.length + k) % c.width = 0 then [symbol, "\n"] else [symbol]
    let ended := counter.map fun c => { c with length := (c.length + ops.length) % c.width }
    (Token.levelsAll ts 1 ≤ depth →
      writeTokens ts depth 1 ⟨sink, counter⟩ = (.ok (), ⟨sink.after calls, ended⟩)) ∧
    (depth < Token.levelsAll ts 1 →
      (writeTokens ts depth 1 ⟨sink, counter⟩).1 = .error .tooDeep) ∧
    (∀ c ∈ counter, (∀ symbol ∈ ops, ∃ d, d ≠ '\n' ∧ symbol = String.singleton d) →
      ∀ line : List Char, '\n' ∉ line → line.length = c.length →
        ∃ full last, (line ++ calls.flatMap String.toList).splitOn '\n' = full ++ [last] ∧
          (∀ l ∈ full, l.length = c.width) ∧ last.length = (c.length + ops.length) % c.width ∧
          full.flatten ++ last = line ++ ops.flatMap String.toList) := by
  intro ops calls ended
  obtain ⟨hok, hdeep⟩ :=
    writeTokens_eq (fun t ht => (hts t ht).writes) depth 1 (w := ⟨sink, counter⟩) ⟨hsink, hvalid⟩
  -- the calls of a writer are those of the statement, with a counter as without one
  refine ⟨fun hle => ?_, hdeep, ?_⟩
  · cases counter with
    | none => exact hok hle
    | some c => exact hok hle
  · intro c hc hops line hline hlength
    obtain rfl : counter = some c := hc
    exact LineCounter.lines_wrapped (hvalid c rfl) hops hline hlength

/-- Groups in a group, and multipliers before and in them, where the first line has begun. -/
theorem writeTokens_expands_groups :
    let ts : List Token := [.number 2, .group [.operator "+", .number 3, .group [.operator "-"]],
      .operator "."]
    let calls := ["+", "-", "\n", "-", "-", "+", "\n", "-", "-", "-", "\n", "."]
    (∀ t ∈ ts, t.Genuine) ∧ Sink.unlimited.Accepts ∧ (1 : Nat) < 3 ∧
    writeTokens ts writingLimit 1 ⟨.unlimited, some ⟨3, 1⟩⟩ =
      (.ok (), ⟨Sink.unlimited.after calls, some ⟨3, 1⟩⟩) := by
  intro ts calls
  have hts : ∀ t ∈ ts, t.Genuine := by
    simp only [ts, List.forall_mem_cons]
    refine ⟨.number 2, .group ?_, .operator ".", nofun⟩
    simp only [List.forall_mem_cons]
    refine ⟨.operator "+", .number 3, .group ?_, nofun⟩
    simp only [List.forall_mem_cons]
    exact ⟨.operator "-", nofun⟩
  have hsink : Sink.unlimited.Accepts := fun _ _ => rfl
  have hvalid : ∀ c ∈ some (⟨3, 1⟩ : LineCounter), c.length < c.width := by
    rintro c ⟨⟩
    decide
  have hle : Token.levelsAll ts 1 ≤ writingLimit := by decide
  have hops : Token.expandAll ts 1 = ["+", "-", "-", "-", "+", "-", "-", "-", "."] := rfl
  have hwrite := (writeTokens_expands hts hsink hvalid writingLimit).1 hle
  rw [hops] at hwrite
  exact ⟨hts, hsink, by decide, hwrite⟩

/-! ### The limit -/

/-- A token in so many groups. -/
def Token.nest (t : Token) : Nat → Token
  | 0 => t
  | n + 1 => .group [t.nest n]

namespace Token

theorem expandAll_nest {t : Token} (ht : ∀ n, t ≠ .number n) (n : Nat) :
    expandAll [t.nest n] 1 = t.expand 1 := by
  induction n with
  | zero => rw [nest, expandAll_cons ht, Int.toNat_one, expandAll, List.append_nil]
  | succ n ih =>
    rw [nest, expandAll_cons (fun _ => Token.noConfusion), Int.toNat_one, expand, ih, expandAll,
      List.append_nil, List.replicate_one, List.flatten_singleton]

theorem le_levelsAll_nest (t : Token) (n : Nat) : n ≤ levelsAll [t.nest n] 1 := by
  induction n with
  | zero => exact Nat.zero_le _
  | succ n ih =>
    rw [nest, levelsAll_cons (fun _ => Token.noConfusion), Int.toNat_one, levels]
    omega

theorem Genuine.nest {t : Token} (h : t.Genuine) (n : Nat) : (t.nest n).Genuine := by
  induction n with
  | zero => exact h
  | succ n ih => exact .group (List.forall_mem_singleton.2 ih)

end Token

/-- An operator in any number of groups spells out itself, but in too many it is not written. -/
theorem writeTokens_not_expands :
    Token.expandAll [(Token.operator "+").nest 4000] 1 = ["+"] ∧
    (writeTokens [(Token.operator "+").nest 4000] writingLimit 1 ⟨.unlimited, none⟩).1 =
      .error .tooDeep := by
  have hready : Writer.Ready ⟨.unlimited, none⟩ := ⟨fun _ _ => rfl, nofun⟩
  have hwrites : ∀ t ∈ [(Token.operator "+").nest 4000], t.Writes :=
    List.forall_mem_singleton.2 ((Token.Genuine.operator "+").nest 4000).writes
  have hne : ∀ n, Token.operator "+" ≠ .number n := fun _ => Token.noConfusion
  have hexpand := Token.expandAll_nest hne 4000
  have hlevels := Token.le_levelsAll_nest (.operator "+") 4000
  exact ⟨hexpand, (writeTokens_eq hwrites writingLimit 1 hready).2
    (Nat.lt_of_lt_of_le (by decide) hlevels)⟩

end Unroll
