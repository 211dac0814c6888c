import Unroll.Proofs.Destination
import Unroll.Proofs.Writing

/-!
# Widths that are refused

Lines are at least one character wide. A program is not even read if a smaller width is asked for.
Tokens that are at hand are not written either, but their destination is opened before the width is
looked at, and a file that is opened for writing is emptied.

* `writeTo_of_width` — what becomes of tokens that are to be written in lines of such a width;
* `writeTo_width_iff`, `preprocess_width_iff` — when the width is what fails;
* `width_refused` — what a width that is refused leaves as it was, and what it does not;
* `width_refused_emptied` — a file whose text is lost.
-/

namespace Unroll

variable {files : Files} {depth : Nat} {tokens : List Token} {lineWidth : Option Int} {w : Int}

/-! ### What fails of a width -/

theorem Failure.ofWriter_ne_width (e : Writer.Failure) : ofWriter e ≠ .width w := by
  cases e with
  | output f =>
    rw [ofWriter, ofOutput]
    split <;> simp
  | foreign v => simp [ofWriter]
  | tooDeep => simp [ofWriter]

/-- Where lines may have the width, it is not what a sink fails of. -/
theorem writeAll_ne_width (hwidth : WidthOk lineWidth) (sink : Sink) :
    (writeAll depth tokens lineWidth sink).1.mapError Failure.ofWrite ≠ .error (.width w) := by
  intro heq
  rcases hresult : (writeAll depth tokens lineWidth sink).1 with e | _
  · obtain ⟨failure, rfl⟩ := writeAll_error hwidth hresult
    rw [hresult] at heq
    exact Failure.ofWriter_ne_width failure (Except.error.inj heq)
  · rw [hresult] at heq
    cases heq

theorem writeTo_ne_width (hwidth : WidthOk lineWidth) (target : Target) :
    (writeTo files depth tokens lineWidth target).1 ≠ .error (.width w) := by
  cases target with
  | sink s => exact writeAll_ne_width hwidth s
  | file path =>
    rcases hcreate : files.create path with f | ⟨place, opened⟩
    · simp [writeTo, hcreate]
    · simp only [writeTo, hcreate]
      exact writeAll_ne_width hwidth .unlimited

/-! ### What a width that is refused leaves -/

/-- A sink is not touched if the width is too small. -/
theorem writeAll_of_width (h : w < 1) (depth : Nat) (tokens : List Token) (sink : Sink) :
    writeAll depth tokens (some w) sink = (.error (.width w), sink) := by
  rw [writeAll]
  simp only [LineCounter.ofWidth?, if_pos h]

/-- A file is opened before the width is found to be too small, and then nothing is written. -/
theorem writeTo_of_width (h : w < 1) (files : Files) (depth : Nat) (tokens : List Token) :
    (∀ sink, writeTo files depth tokens (some w) (.sink sink) =
      (.error (.width w), files, .sink sink)) ∧
    ∀ path,
      (∀ f, files.create path = .error f →
        writeTo files depth tokens (some w) (.file path) =
          (.error (.fault f), files, .file path)) ∧
      ∀ opened, files.create path = .ok opened →
        writeTo files depth tokens (some w) (.file path) =
          (.error (.width w), opened.2.store opened.1 "", .file path) := by
  refine ⟨fun sink => ?_, fun path => ⟨fun f hcreate => ?_, fun opened hcreate => ?_⟩⟩
  · rw [writeTo, writeAll_of_width h]
    rfl
  · rw [writeTo, hcreate]
  · rw [writeTo, hcreate, writeAll_of_width h]
    rfl

/-- The width is what writing fails of if it is too small, unless a file cannot be opened. -/
theorem writeTo_width_iff {target : Target} :
    (writeTo files depth tokens lineWidth target).1 = .error (.width w) ↔
      lineWidth = some w ∧ w < 1 ∧
        ∀ path, target = .file path → ∃ opened, files.create path = .ok opened := by
  constructor
  · intro hresult
    rcases widthOk_or lineWidth with ⟨width, rfl, hlt⟩ | hwidth
    · obtain ⟨hsink, hfile⟩ := writeTo_of_width hlt files depth tokens
      cases target with
      | sink s =>
        rw [hsink] at hresult
        obtain rfl := Failure.width.inj (Except.error.inj hresult)
        exact ⟨rfl, hlt, by simp⟩
      | file path =>
        obtain ⟨hclosed, hopened⟩ := hfile path
        rcases hcreate : files.create path with f | opened
        · rw [hclosed f hcreate] at hresult
          cases hresult
        · rw [hopened opened hcreate] at hresult
          obtain rfl := Failure.width.inj (Except.error.inj hresult)
          refine ⟨rfl, hlt, fun path' heq => ?_⟩
          obtain rfl := Target.file.inj heq
          exact ⟨opened, hcreate⟩
    · exact absurd hresult (writeTo_ne_width hwidth target)
  · rintro ⟨rfl, hlt, hopens⟩
    obtain ⟨hsink, hfile⟩ := writeTo_of_width hlt files depth tokens
    cases target with
    | sink s => rw [hsink]
    | file path =>
      obtain ⟨opened, hcreate⟩ := hopens path rfl
      rw [(hfile path).2 opened hcreate]

/-- The width is what preprocessing fails of if and only if it is too small. -/
theorem preprocess_width_iff {origin : Origin} {target : Target} {config : Config} :
    (preprocess files depth origin target config lineWidth).result = .error (.width w) ↔
      lineWidth = some w ∧ w < 1 := by
  constructor
  · intro hresult
    rcases widthOk_or lineWidth with ⟨width, rfl, hlt⟩ | hwidth
    · rw [preprocess_of_width hlt] at hresult
      obtain rfl := Failure.width.inj (Except.error.inj hresult)
      exact ⟨rfl, hlt⟩
    · rcases hread : (tokenizeFrom files config depth origin).1 with e | ts
      · rw [(preprocess_of_error hwidth hread target).1] at hresult
        obtain rfl := Except.error.inj hresult
        obtain ⟨f, hf⟩ | ⟨error, herror⟩ := tokenizeFrom_error hread
        · cases hf
        · cases herror
      · have hwrite := congrArg Prod.fst (preprocess_of_tokens hwidth hread target)
        exact absurd (hwrite.symm.trans hresult) (writeTo_ne_width hwidth target)
  · rintro ⟨rfl, hlt⟩
    rw [preprocess_of_width hlt]

/-- A width that is refused has no effect on preprocessing at all: nothing is read, no call is made
on a sink, and all files are left as they were. The same holds for writing tokens to a sink. A file
that tokens are to be written to is opened first. If that fails nothing is changed either; otherwise
the width is refused, and the file is left without a text, and every other one as it was. -/
theorem width_refused (h : w < 1) (files : Files) (depth : Nat) (tokens : List Token) :
    (∀ (origin : Origin) (target : Target) (config : Config),
      preprocess files depth origin target config (some w) =
        { result := .error (.width w), files, origin, target, log := [] }) ∧
    (∀ sink, writeTo files depth tokens (some w) (.sink sink) =
      (.error (.width w), files, .sink sink)) ∧
    (∀ path f, files.create path = .error f →
      writeTo files depth tokens (some w) (.file path) =
        (.error (.fault f), files, .file path)) ∧
    (∀ path opened, files.create path = .ok opened →
      ∃ after, writeTo files depth tokens (some w) (.file path) =
          (.error (.width w), after, .file path) ∧
        files.Rewritten path "" after) ∧
    (∀ (origin : Origin) (target : Target) (config : Config) (lineWidth : Option Int) (n : Int),
      (preprocess files depth origin target config lineWidth).result = .error (.width n) ↔
        lineWidth = some n ∧ n < 1) ∧
    ∀ (target : Target) (lineWidth : Option Int) (n : Int),
      (writeTo files depth tokens lineWidth target).1 = .error (.width n) ↔
        lineWidth = some n ∧ n < 1 ∧
          ∀ path, target = .file path → ∃ opened, files.create path = .ok opened := by
  obtain ⟨hsink, hfile⟩ := writeTo_of_width h files depth tokens
  exact ⟨fun origin target config => preprocess_of_width h target, hsink,
    fun path => (hfile path).1,
    fun path opened hcreate => ⟨_, (hfile path).2 opened hcreate, Files.rewritten_store hcreate ""⟩,
    fun origin target config lineWidth n => preprocess_width_iff,
    fun target lineWidth n => writeTo_width_iff⟩

/-! ### A file whose text is lost -/

/-- A file with a text. -/
def Files.withText : Files := ⟨[(["p"], .file (Text.Utf8.encode ['o', 'l', 'd']))]⟩

theorem Files.locate_withText : Files.withText.locate "p" = .ok ["p"] := by
  rw [Files.locate, Path.names_p]
  rfl

theorem Files.create_withText : ∃ opened, Files.withText.create "p" = .ok opened := by
  rw [Files.create, Path.wantsDirectory, Path.names_p, Files.locate_withText]
  exact ⟨_, rfl⟩

/-- Lines of no characters are refused by preprocessing, which leaves a file as it was, and by
writing, which empties it. -/
theorem width_refused_zero :
    (0 : Int) < 1 ∧
    (preprocess Files.withText 9 (.file "p") (.file "p") .standard (some 0)).files =
      Files.withText ∧
    ∃ after, writeTo Files.withText 9 [.operator "+"] (some 0) (.file "p") =
        (.error (.width 0), after, .file "p") ∧
      Files.withText.Rewritten "p" "" after := by
  obtain ⟨opened, hcreate⟩ := Files.create_withText
  obtain ⟨hpreprocess, -, -, hwrite, -, -⟩ :=
    width_refused (by decide : (0 : Int) < 1) Files.withText 9 [.operator "+"]
  exact ⟨by decide, by rw [hpreprocess], hwrite "p" opened hcreate⟩

/-- A width that is refused changes a file that tokens are to be written to. -/
theorem width_refused_emptied :
    (writeTo Files.withText 9 [.operator "+"] (some 0) (.file "p")).1 = .error (.width 0) ∧
    Files.withText.open? "p" = .ok (Text.Utf8.encode ['o', 'l', 'd']) ∧
    (writeTo Files.withText 9 [.operator "+"] (some 0) (.file "p")).2.1.open? "p" = .ok [] := by
  obtain ⟨opened, hcreate⟩ := Files.create_withText
  obtain ⟨-, hfile⟩ :=
    writeTo_of_width (by decide : (0 : Int) < 1) Files.withText 9 [.operator "+"]
  rw [(hfile "p").2 opened hcreate]
  refine ⟨rfl, ?_, (Files.rewritten_store hcreate "").holds⟩
  rw [Files.open?, Files.locate_withText]
  rfl

end Unroll
