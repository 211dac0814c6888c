import Unroll.Proofs.Rewriting
import Unroll.Proofs.Writing

/-!
# The limit on nesting

Readers and the writing of groups are nested, and how deeply they may be is limited. A program that
keeps within the limit is read and written as it would be without one. One that does not fails for
that reason and for no other, whatever else is wrong with it.

* `Machine.most`, `tokenize_of_most` — how many readers are at work inside of each other, which
  alone decides whether a program is read or is too deep;
* `Sink.Front`, `writeAll_of_le` — what is written before there is no more room is the front of what
  is written with more room;
* `Skips`, `Skips.levelsAll_eq` — a group that is multiplied by nothing needs no room;
* `ReadingLimited`, `WritingLimited`, `PreprocessingLimited` — what a limit does to each;
* `limit_fatal_or_invisible` — it does so for all programs and all tokens.
-/

namespace Unroll

/-! ### How deeply readers are nested -/

namespace Machine

/-- The most readers that are at work inside of each other before so many steps are done. -/
def mostWithin (config : Config) : (steps : Nat) → Machine → Nat
  | 0, m => m.readers config
  | steps + 1, m => max (m.readers config) (mostWithin config steps (m.step config))

/-- The most readers that are at work inside of each other while the machine runs. A step for each
character that is left is enough to come to rest. -/
def most (config : Config) (m : Machine) : Nat := m.mostWithin config m.cursor.rest.length

theorem mostWithin_le_iff {config : Config} {depth steps : Nat} {m : Machine} :
    m.mostWithin config steps ≤ depth ↔
      ∀ n ≤ steps, ((step config)^[n] m).readers config ≤ depth := by
  induction steps generalizing m with
  | zero =>
    refine ⟨fun h n hn => ?_, fun h => h 0 le_rfl⟩
    obtain rfl := Nat.le_zero.1 hn
    exact h
  | succ steps ih =>
    rw [mostWithin, Nat.max_le, ih]
    constructor
    · rintro ⟨hfirst, hrest⟩ n hn
      cases n with
      | zero => exact hfirst
      | succ n => exact hrest n (Nat.le_of_succ_le_succ hn)
    · intro h
      exact ⟨h 0 (Nat.zero_le _), fun n hn => h (n + 1) (Nat.succ_le_succ hn)⟩

theorem fits_iff_most_le {config : Config} {depth : Nat} {m : Machine} :
    m.Fits config depth ↔ m.most config ≤ depth := by
  rw [most, mostWithin_le_iff]
  refine ⟨fun h n _ => h n, fun h n => ?_⟩
  rcases Nat.le_total n m.cursor.rest.length with hle | hge
  · exact h n hle
  · -- the machine has come to rest by then
    rw [(shrinks_step config).iterate_eq hge]
    exact h _ le_rfl

/-- Each character makes room for two more readers at most. -/
theorem most_start_le (config : Config) (text : List Char) :
    (start text).most config ≤ 2 * text.length + 1 := by
  refine fits_iff_most_le.1 (fits_of_length ?_)
  simp only [start, Stack.height]
  omega

end Machine

theorem tokenize_fst (config : Config) (limit : Nat) (stream : Stream) :
    (tokenize config limit stream).1 = ((Lexer.ofSource (.ofStream stream Source.chunkSize)).readAll
      config limit).1.mapError .ofLexer := rfl

/-- A program at hand is read as the machine reads it, or found too deep. -/
theorem tokenize_of_most (config : Config) (limit : Nat) (text : List Char) :
    ((Machine.start text).most config ≤ limit →
      (tokenize config limit ⟨text, .quiet⟩).1 =
        ((Machine.start text).final config).1.mapError .ofLexer) ∧
    (limit < (Machine.start text).most config →
      (tokenize config limit ⟨text, .quiet⟩).1 = .error (.error (.tooDeep "read"))) := by
  obtain ⟨hfits, hdeep⟩ := (Lexer.at_ofStream text).readAll_final config limit
  refine ⟨fun hle => ?_, fun hlt => ?_⟩
  · have hfinal := congrArg Prod.fst (hfits (Machine.fits_iff_most_le.2 hle))
    simp only at hfinal
    rw [tokenize_fst, hfinal]
    rfl
  · have hresult := hdeep fun hfits => Nat.not_le_of_lt hlt (Machine.fits_iff_most_le.1 hfits)
    rw [tokenize_fst, hresult]
    rfl

/-! ### The front of an output -/

/-- What a sink was called with and has received is the front of what another one was and has. -/
structure Sink.Front (short whole : Sink) : Prop where
  calls : short.calls.reverse <+: whole.calls.reverse
  output : ∃ rest, whole.output = short.output ++ rest

theorem Sink.Gained.front {Kind : String → Prop} {before after : Sink}
    (h : before.Gained Kind after) : before.Front after where
  calls := by
    obtain ⟨made, hcalls, -⟩ := h.calls
    rw [hcalls, List.reverse_append]
    exact List.prefix_append _ _
  output := by
    obtain ⟨texts, houtput, -⟩ := h.output
    exact ⟨_, houtput⟩

theorem Writer.Keeps.putAll {State : Writer → Prop} {Kind : String → Prop}
    {Fails : Writer.Failure → Prop} (h : Keeps State Kind Fails) {ops : List String}
    (hops : ∀ symbol ∈ ops, Kind symbol) {w : Writer} (hw : State w) :
    Kept State Fails (w.putAll ops) := by
  induction ops generalizing w with
  | nil => exact .ok hw
  | cons symbol ops ih =>
    obtain ⟨hsymbol, hrest⟩ := List.forall_mem_cons.1 hops
    have hone := h.putOperator hw hsymbol
    rcases hput : w.putOperator symbol with ⟨e | _, w'⟩
    · rw [hput] at hone
      simp only [Writer.putAll, hput]
      exact hone
    · rw [hput] at hone
      simp only [Writer.putAll, hput]
      exact ih hrest hone.state

/-- Whatever is still to be written, the sink keeps what it has. -/
theorem Script.front_play (s : Script) (w : Writer) : w.sink.Front (s.play w).2.sink := by
  rw [Script.play_snd]
  have hkeeps : Writer.Keeps (fun after => w.sink.Gained (fun _ => True) after.sink ∧
      after.counter.isSome = w.counter.isSome) (fun _ => True) w.sink.Fails :=
    Writer.keeps_gained w.sink fun _ => trivial
  exact (hkeeps.putAll (fun _ _ => trivial) ⟨.refl w.sink, rfl⟩).state.1.front

/-- Tokens are written with the same counter, whatever the limit, or the width is too small. -/
theorem writeAll_counter_or (lineWidth : Option Int) :
    (∃ width, ∀ limit ts sink,
      writeAll limit ts lineWidth sink = (.error (.width width), sink)) ∨
    ∃ counter, ∀ limit ts sink, writeAll limit ts lineWidth sink =
      ((writeTokens ts limit 1 ⟨sink, counter⟩).1.mapError .writer,
        (writeTokens ts limit 1 ⟨sink, counter⟩).2.sink) := by
  cases lineWidth with
  | none => exact .inr ⟨none, fun _ _ _ => rfl⟩
  | some width =>
    rcases hcounter : LineCounter.ofWidth? width with _ | counter
    · exact .inl ⟨width, fun _ _ _ => by simp only [writeAll, hcounter]⟩
    · exact .inr ⟨some counter, fun _ _ _ => by simp only [writeAll, hcounter]⟩

/-- A larger limit makes no difference, or there was too little room and writing goes on. -/
theorem writeAll_of_le {limit larger : Nat} (h : limit ≤ larger) (ts : List Token)
    (lineWidth : Option Int) (sink : Sink) :
    writeAll larger ts lineWidth sink = writeAll limit ts lineWidth sink ∨
    (writeAll limit ts lineWidth sink).1 = .error (.writer .tooDeep) ∧
      (writeAll limit ts lineWidth sink).2.Front (writeAll larger ts lineWidth sink).2 := by
  rcases writeAll_counter_or lineWidth with ⟨width, hwrite⟩ | ⟨counter, hwrite⟩
  · exact .inl (by rw [hwrite, hwrite])
  · have htruncates := truncates_writeTokens ts h 1
    rw [hwrite, hwrite]
    by_cases hdeep : (writeTokens ts limit 1 ⟨sink, counter⟩).1 = .error .tooDeep
    · obtain ⟨s, hs⟩ := htruncates.goes_on (Prod.ext hdeep rfl)
      refine .inr ⟨?_, ?_⟩
      · simp only [hdeep]
        rfl
      · rw [hs]
        exact s.front_play _
    · exact .inl (by rw [htruncates.eq_of_ne_tooDeep hdeep])

/-! ### Groups that are not written -/

/-- A group that is multiplied by nothing is left out. The number one stands in its place, so that
nothing else is multiplied. -/
inductive Skips : List Token → List Token → Prop where
  | group (xs : List Token) {n : Int} (hn : n ≤ 0) (ts ys : List Token) :
      Skips (xs ++ .number n :: .group ts :: ys) (xs ++ .number 1 :: ys)

open Token in
/-- Of two parts of a list, the one that needs more room decides. -/
theorem levelsAll_carry (xs ys : List Token) (multiplier : Int) :
    levelsAll (xs ++ ys) multiplier =
      max (levelsAll xs multiplier) (levelsAll ys (carry xs multiplier)) := by
  induction xs generalizing multiplier with
  | nil => exact (Nat.zero_max _).symm
  | cons t xs ih =>
    obtain ⟨n, rfl⟩ | hne := t.number_or
    · exact ih n
    · rw [List.cons_append, levelsAll_cons hne, levelsAll_cons hne, carry_cons hne, ih,
        Nat.max_assoc]

section

variable {ts ts' : List Token}

theorem Skips.levelsAll_eq (h : Skips ts ts') : Token.levelsAll ts' 1 = Token.levelsAll ts 1 := by
  obtain ⟨xs, hn, inner, ys⟩ := h
  have hgroup : ∀ n : Int, n ≤ 0 → (Token.group inner).levels n.toNat = 0 := by
    intro n hn
    rw [Int.toNat_of_nonpos hn, Token.levels]
  rw [levelsAll_carry, levelsAll_carry, Token.levelsAll, Token.levelsAll,
    Token.levelsAll_cons fun _ => Token.noConfusion, hgroup _ hn, Nat.zero_max]

theorem Skips.writeTokens_eq (h : Skips ts ts') (depth : Nat) :
    writeTokens ts' depth 1 = writeTokens ts depth 1 := by
  obtain ⟨xs, hn, inner, ys⟩ := h
  rw [writeTokens_number_group, Int.toNat_of_nonpos hn, Writer.repeated_zero, Writer.pure_andThen,
    writeTokens_carry]
  rfl

/-- Replacements that need as much room do so in a group as well. -/
theorem Rewrites.levelsAll_eq {rule : List Token → List Token → Prop}
    (hrule : ∀ {ts ts' : List Token}, rule ts ts' → Token.levelsAll ts' 1 = Token.levelsAll ts 1)
    (h : Rewrites rule ts ts') : Token.levelsAll ts' 1 = Token.levelsAll ts 1 := by
  induction h with
  | here h => exact hrule h
  | @inside xs ts ts' _ ys ih =>
    have hgroup : ∀ times, (Token.group ts').levels times = (Token.group ts).levels times := by
      intro times
      cases times with
      | zero => rw [Token.levels, Token.levels]
      | succ times => rw [Token.levels, Token.levels, ih]
    rw [levelsAll_carry, levelsAll_carry, Token.levelsAll_cons fun _ => Token.noConfusion,
      Token.levelsAll_cons fun _ => Token.noConfusion, hgroup]

theorem writeAll_congr {depth : Nat} (h : writeTokens ts' depth 1 = writeTokens ts depth 1)
    (lineWidth : Option Int) (sink : Sink) :
    writeAll depth ts' lineWidth sink = writeAll depth ts lineWidth sink := by
  simp only [writeAll, h]

end

/-! ### What a limit does -/

/-- A limit on the readers that may be at work inside of each other is met, or it cannot be told
from any other limit that is met. -/
structure ReadingLimited (config : Config) (text : List Char) (limit : Nat) : Prop where
  /-- no program needs more readers than two for each of its characters, and one -/
  bounded : (Machine.start text).most config ≤ 2 * text.length + 1
  /-- with enough room, a program is read as it is without a limit -/
  enough (h : (Machine.start text).most config ≤ limit) :
    (tokenize config limit ⟨text, .quiet⟩).1 =
      ((Machine.start text).final config).1.mapError .ofLexer
  /-- more room makes no difference then -/
  larger (h : (Machine.start text).most config ≤ limit) {more : Nat} (hmore : limit ≤ more) :
    (tokenize config more ⟨text, .quiet⟩).1 = (tokenize config limit ⟨text, .quiet⟩).1
  /-- with too little room, nothing else is reported, whatever was found before -/
  tooDeep : (tokenize config limit ⟨text, .quiet⟩).1 = .error (.error (.tooDeep "read")) ↔
    limit < (Machine.start text).most config
  /-- what is found by the readers is reported where there was enough room, and holds no such
  failure -/
  reported {r : Rejection}
      (h : (tokenize config limit ⟨text, .quiet⟩).1 = .error (.error (.rejection r))) :
    (Machine.start text).most config ≤ limit ∧
      ∀ d ∈ r.diagnostics, Lexer.Noted config d.problem

/-- A limit on the groups that may be written inside of each other is met, or it cannot be told from
any other limit that is met. -/
structure WritingLimited (ts : List Token) (lineWidth : Option Int) (limit : Nat) : Prop where
  /-- with enough room, more room makes no difference -/
  enough (h : Token.levelsAll ts 1 ≤ limit) {more : Nat} (hmore : limit ≤ more) (sink : Sink) :
    writeAll more ts lineWidth sink = writeAll limit ts lineWidth sink
  /-- where more room makes a difference, there was too little, and the front is written -/
  front {more : Nat} (hmore : limit ≤ more) (sink : Sink) :
    writeAll more ts lineWidth sink = writeAll limit ts lineWidth sink ∨
    (writeAll limit ts lineWidth sink).1 = .error (.writer .tooDeep) ∧
      (writeAll limit ts lineWidth sink).2.Front (writeAll more ts lineWidth sink).2
  /-- where the sink takes everything, the limit alone decides -/
  decided (hts : ∀ t ∈ ts, t.Genuine) (hwidth : WidthOk lineWidth) {sink : Sink}
      (hsink : sink.Accepts) :
    (Token.levelsAll ts 1 ≤ limit →
      writeAll limit ts lineWidth sink = (.ok (), sink.after (Token.calls lineWidth ts))) ∧
    (limit < Token.levelsAll ts 1 →
      (writeAll limit ts lineWidth sink).1 = .error (.writer .tooDeep) ∧
        (writeAll limit ts lineWidth sink).2.Front (sink.after (Token.calls lineWidth ts)))
  /-- groups that are multiplied by nothing do not count, wherever they are -/
  skipped {ts' : List Token} (h : Rewrites Skips ts ts') :
    Token.levelsAll ts' 1 = Token.levelsAll ts 1 ∧
      ∀ sink, writeAll limit ts' lineWidth sink = writeAll limit ts lineWidth sink

/-- What it means to preprocess a program that meets a limit. -/
structure PreprocessingLimited (config : Config) (text : List Char) (limit : Nat) : Prop where
  /-- nothing is written where the limit was met in reading -/
  unread (h : limit < (Machine.start text).most config) {files : Files} {origin : Origin}
      (hopen : origin.open? files = .ok ⟨text, .quiet⟩) (target : Target)
      (lineWidth : Option Int) :
    let done := preprocess files limit origin target config lineWidth
    done.files = files ∧ done.target = target ∧
      (WidthOk lineWidth → done.result = .error (.error (.tooDeep "read")))
  /-- where it is met in writing, a sink holds the front of the output -/
  unwritten {ts : List Token} (hread : (tokenize config limit ⟨text, .quiet⟩).1 = .ok ts)
      (h : limit < Token.levelsAll ts 1) {files : Files} {origin : Origin}
      (hopen : origin.open? files = .ok ⟨text, .quiet⟩) {sink : Sink} (hsink : sink.Accepts)
      {lineWidth : Option Int} (hwidth : WidthOk lineWidth) :
    let done := preprocess files limit origin (.sink sink) config lineWidth
    done.result = .error (.error (.tooDeep "written")) ∧ done.files = files ∧
      ∃ written : Sink, done.target = .sink written ∧
        written.Front (sink.after (Token.calls lineWidth ts))
  /-- and so does a file -/
  unfinished {ts : List Token} (hread : (tokenize config limit ⟨text, .quiet⟩).1 = .ok ts)
      (h : limit < Token.levelsAll ts 1) {files : Files} {origin : Origin}
      (hopen : origin.open? files = .ok ⟨text, .quiet⟩) {path : String} {opened : Place × Files}
      (hcreate : files.create path = .ok opened) {lineWidth : Option Int}
      (hwidth : WidthOk lineWidth) :
    let done := preprocess files limit origin (.file path) config lineWidth
    done.result = .error (.error (.tooDeep "written")) ∧
      ∃ written rest : String, Token.text lineWidth ts = written ++ rest ∧
        files.Rewritten path written done.files

/-! ### Reading -/

theorem Failure.ofLexer_tooDeep {e : Lexer.Failure}
    (h : ofLexer e = .error (.tooDeep "read")) : e = .tooDeep := by
  cases e with
  | rejected r => cases h
  | input f =>
    rw [ofLexer, ofInput] at h
    split at h <;> cases h
  | tooDeep => rfl

theorem Failure.ofLexer_rejection {e : Lexer.Failure} {r : Rejection}
    (h : ofLexer e = .error (.rejection r)) : e = .rejected r := by
  cases e with
  | rejected r' =>
    obtain rfl := Error.rejection.inj (Failure.error.inj h)
    rfl
  | input f =>
    rw [ofLexer, ofInput] at h
    split at h <;> cases h
  | tooDeep => cases h

/-- The machine finds nothing too deep. -/
theorem Machine.final_ne_tooDeep (config : Config) (m : Machine) :
    (m.final config).1.mapError Failure.ofLexer ≠ .error (.error (.tooDeep "read")) := by
  intro h
  rcases hprogram : (m.final config).1 with e | ts
  · rw [hprogram] at h
    obtain rfl := Failure.ofLexer_tooDeep (Except.error.inj h)
    exact Scope.program_ne_tooDeep _ hprogram
  · rw [hprogram] at h
    cases h

/-- The diagnostics of a program are those that readers note. -/
theorem tokenize_noted {config : Config} {limit : Nat} {stream : Stream} {r : Rejection}
    (h : (tokenize config limit stream).1 = .error (.error (.rejection r))) :
    ∀ d ∈ r.diagnostics, Lexer.Noted config d.problem := by
  have hkept := Lexer.kept_readAll config limit (.ofStream stream Source.chunkSize)
  rw [tokenize_fst] at h
  rcases hread : ((Lexer.ofSource (.ofStream stream Source.chunkSize)).readAll config limit).1 with
    e | ts
  · rw [hread] at h
    obtain rfl := Failure.ofLexer_rejection (Except.error.inj h)
    exact hkept.found hread
  · rw [hread] at h
    cases h

theorem readingLimited (config : Config) (text : List Char) (limit : Nat) :
    ReadingLimited config text limit := by
  obtain ⟨henough, hdeep⟩ := tokenize_of_most config limit text
  constructor
  case bounded => exact Machine.most_start_le config text
  case enough => exact henough
  case larger =>
    intro h more hmore
    rw [henough h, (tokenize_of_most config more text).1 (Nat.le_trans h hmore)]
  case tooDeep =>
    refine ⟨fun hread => Nat.lt_of_not_le fun hle => ?_, hdeep⟩
    rw [henough hle] at hread
    exact Machine.final_ne_tooDeep config _ hread
  case reported =>
    intro r hread
    refine ⟨Nat.le_of_not_lt fun hlt => ?_, tokenize_noted hread⟩
    rw [hdeep hlt] at hread
    cases hread

/-! ### Writing -/

theorem writingLimited (ts : List Token) (lineWidth : Option Int) (limit : Nat) :
    WritingLimited ts lineWidth limit := by
  constructor
  case enough =>
    intro h more hmore sink
    refine (writeAll_of_le hmore ts lineWidth sink).resolve_right fun ⟨hdeep, _⟩ => ?_
    rcases writeAll_counter_or lineWidth with ⟨width, hwrite⟩ | ⟨counter, hwrite⟩
    · rw [hwrite] at hdeep
      cases hdeep
    · rw [hwrite] at hdeep
      have hroom := writeTokens_ne_tooDeep ts h ⟨sink, counter⟩
      rcases hresult : (writeTokens ts limit 1 ⟨sink, counter⟩).1 with e | _
      · simp only [hresult] at hdeep
        obtain rfl := WriteFailure.writer.inj (Except.error.inj hdeep)
        exact hroom hresult
      · simp only [hresult] at hdeep
        cases hdeep
  case front => exact fun hmore sink => writeAll_of_le hmore ts lineWidth sink
  case decided =>
    intro hts hwidth sink hsink
    obtain ⟨hok, hdeep⟩ := writeAll_eq hts hwidth hsink limit
    refine ⟨hok, fun hlt => ⟨hdeep hlt, ?_⟩⟩
    -- the whole output is written where there is just enough room
    have hwhole := (writeAll_eq hts hwidth hsink (Token.levelsAll ts 1)).1 le_rfl
    rcases writeAll_of_le (Nat.le_of_lt hlt) ts lineWidth sink with hsame | ⟨-, hfront⟩
    · have hresult := hdeep hlt
      rw [← hsame, hwhole] at hresult
      cases hresult
    · rwa [hwhole] at hfront
  case skipped =>
    intro ts' h
    refine ⟨h.levelsAll_eq Skips.levelsAll_eq, fun sink => ?_⟩
    exact writeAll_congr (h.writeTokens_eq Skips.writeTokens_eq limit) lineWidth sink

/-! ### Both -/

theorem tokenizeFrom_of_open {files : Files} {origin : Origin} {stream : Stream}
    (h : origin.open? files = .ok stream) (config : Config) (limit : Nat) :
    (tokenizeFrom files config limit origin).1 = (tokenize config limit stream).1 := by
  simp only [tokenizeFrom, h]

theorem preprocessingLimited (config : Config) (text : List Char) (limit : Nat) :
    PreprocessingLimited config text limit := by
  constructor
  case unread =>
    intro h files origin hopen target lineWidth
    have hread := (tokenizeFrom_of_open hopen config limit).trans
      ((tokenize_of_most config limit text).2 h)
    rcases widthOk_or lineWidth with ⟨width, rfl, hlt⟩ | hwidth
    · rw [preprocess_of_width hlt target]
      exact ⟨rfl, rfl, fun hwidth => absurd (hwidth width rfl) (Int.not_le.2 hlt)⟩
    · obtain ⟨hresult, hfiles, htarget⟩ := preprocess_of_error hwidth hread target
      exact ⟨hfiles, htarget, fun _ => hresult⟩
  case unwritten =>
    intro ts hread h files origin hopen sink hsink lineWidth hwidth
    have htokens := (tokenizeFrom_of_open hopen config limit).trans hread
    have hwrite := preprocess_of_tokens hwidth htokens (.sink sink)
    obtain ⟨hdeep, hfront⟩ :=
      ((writingLimited ts lineWidth limit).decided (tokenizeFrom_genuine htokens) hwidth hsink).2 h
    simp only [writeTo, hdeep, Prod.mk.injEq] at hwrite
    obtain ⟨hresult, hfiles, htarget⟩ := hwrite
    exact ⟨hresult, hfiles, _, htarget, hfront⟩
  case unfinished =>
    rintro ts hread h files origin hopen path ⟨place, opened⟩ hcreate lineWidth hwidth
    have htokens := (tokenizeFrom_of_open hopen config limit).trans hread
    have hwrite := preprocess_of_tokens hwidth htokens (.file path)
    obtain ⟨hdeep, hfront⟩ := ((writingLimited ts lineWidth limit).decided
      (tokenizeFrom_genuine htokens) hwidth Sink.unlimited_accepts).2 h
    simp only [writeTo, hcreate, hdeep, Prod.mk.injEq] at hwrite
    obtain ⟨hresult, hfiles, -⟩ := hwrite
    obtain ⟨rest, hrest⟩ := hfront.output
    rw [Sink.unlimited, Token.output_after] at hrest
    refine ⟨hresult, _, rest, hrest, ?_⟩
    rw [hfiles]
    exact Files.rewritten_store hcreate _

/-- A limit that is met in reading or in writing ends it, with a failure of its own and with no
more than the front of the output. One that is not met makes no difference. -/
theorem limit_fatal_or_invisible (config : Config) (limit : Nat) :
    (∀ text, ReadingLimited config text limit) ∧
    (∀ ts lineWidth, WritingLimited ts lineWidth limit) ∧
    (∀ text, PreprocessingLimited config text limit) :=
  ⟨fun text => readingLimited config text limit,
    fun ts lineWidth => writingLimited ts lineWidth limit,
    fun text => preprocessingLimited config text limit⟩

/-- Macros make groups deeper than readers ever are: five readers at work inside of each other are
enough to read this, and five groups inside of each other are too few to write it. -/
example :
    let text := "$a+$a(a)$a(a)$a(a)$a(a)$a(a)$a(a)a".toList
    let tokens := (tokenize .standard 5 ⟨text, .quiet⟩).1
    (tokens.toOption.map fun ts => Token.levelsAll ts 1) = some 6 := by
  decide +kernel

end Unroll
