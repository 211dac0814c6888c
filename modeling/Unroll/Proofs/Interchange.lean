import Unroll.Proofs.Lockstep
import Unroll.Proofs.Tables

/-!
# Configurations that are interchangeable

Configurations may differ in the order in which their operators were given. A lexer cannot tell them
apart, although it reads a table from symbols to roles, and reports what it finds wrong with a table
from roles to symbols: where nothing is renamed, two lexers side by side are one.

* `Lexer.parallel_refl` — a lexer stands beside itself, under configurations that mean the same;
* `Lexer.Session.run_congr`, `preprocess_congr` — it comes to the same, operation by operation;
* `interchangeable` — configurations that mean the same are interchangeable.
-/

namespace Unroll

/-! ### One lexer, two configurations -/

namespace Lexer

variable {config config' : Config}

/-- A lexer stands beside itself, if every code point has the same role in both configurations. -/
theorem parallel_refl (h : ∀ c, config'.roleOf c = config.roleOf c) :
    Parallel .refl config config' Eq where
  role c := by
    rw [Renaming.point_refl, h]
  steps hl := by rw [hl]
  position hl := by rw [hl]
  lookup hl c := by
    rw [hl, Renaming.map_token_refl]
    rfl
  peek hl := by
    subst hl
    exact ⟨(Renaming.character_refl _).symm, rfl⟩
  consume hl hpeek hpeek' := by
    subst hl
    rw [hpeek] at hpeek'
    obtain ⟨-, rfl⟩ := Prod.mk.inj hpeek'
    rfl
  bindMacro hl symbol body := by
    rw [hl, Renaming.token_refl]
    rfl

/-- Reading a program comes to the same under configurations that mean the same. -/
theorem readAll_congr (h : ∀ c, config'.roleOf c = config.roleOf c) (depth : Nat) (l : Lexer) :
    l.readAll config' depth = l.readAll config depth := by
  have hread := (parallel_refl h).readAll_same (rfl : l = l) depth
  exact Prod.ext hread.result hread.lexers.symm

namespace Session

/-- Sessions with the same lexer and the same walks are the same. -/
theorem Matched.eq {α : Type} {done done' : α × Session} (h : Matched Eq done done') :
    done' = done := by
  obtain ⟨answers, lexer, walks⟩ := done
  obtain ⟨answers', lexer', walks'⟩ := done'
  obtain ⟨hanswers, hlexer, hwalks⟩ := h
  obtain rfl : lexer = lexer' := hlexer
  obtain rfl : walks' = walks := hwalks
  exact congrArg (·, (⟨lexer, walks'⟩ : Session)) hanswers

/-- A session comes to the same under configurations that mean the same: the same answers, and the
same state in the end. -/
theorem run_congr (h : ∀ c, config'.roleOf c = config.roleOf c) (depth : Nat)
    (ops : List Operation) (s : Session) :
    s.run config' depth ops = s.run config depth ops :=
  ((parallel_refl h).run depth ops ⟨rfl, rfl⟩).eq

end Session

end Lexer

/-! ### Preprocessing -/

/-- The event as it is under another configuration. -/
def Event.under (config : Config) : Event → Event
  | configured _ => configured config
  | started _ lineWidth => started config lineWidth
  | e => e

variable {config config' : Config}

theorem tokenizeFrom_congr (h : ∀ c, config'.roleOf c = config.roleOf c) (files : Files)
    (depth : Nat) (origin : Origin) :
    tokenizeFrom files config' depth origin = tokenizeFrom files config depth origin := by
  have hstream : ∀ stream, tokenize config' depth stream = tokenize config depth stream := by
    intro stream
    simp only [tokenize, Lexer.readAll_congr h]
  simp only [tokenizeFrom, hstream]

/-- Preprocessing comes to the same under configurations that mean the same. Only the event of its
beginning shows the configuration. -/
theorem preprocess_congr (h : ∀ c, config'.roleOf c = config.roleOf c) (files : Files)
    (depth : Nat) (origin : Origin) (target : Target) (lineWidth : Option Int) :
    preprocess files depth origin target config' lineWidth =
      let done := preprocess files depth origin target config lineWidth
      { done with log := done.log.map (·.under config') } := by
  have hbound : ∀ bindings : List Binding,
      (bindings.map Event.bound).map (·.under config') = bindings.map Event.bound := by
    intro bindings
    rw [List.map_map]
    rfl
  rcases hwidth : lineWidth.filter (· < 1) with _ | width
  · rcases hread : tokenizeFrom files config depth origin with ⟨e | tokens, bindings, origin'⟩
    all_goals
      have hread' := (tokenizeFrom_congr h files depth origin).trans hread
      simp only [preprocess, hwidth, hread, hread', List.map_cons, List.map_append, hbound]
      rfl
  · simp only [preprocess, hwidth]
    rfl

/-- Configurations that mean the same are interchangeable. Whatever is asked of a lexer, also after
a failure, its answers and its states are the same with one as with the other, and preprocessing
comes to the same result, makes the same calls on a sink and leaves the same files. -/
theorem interchangeable {c d : Config} (h : c.sameRoles d = true) :
    (∀ (depth : Nat) (s : Lexer.Session) (ops : List Lexer.Operation),
      s.run d depth ops = s.run c depth ops) ∧
    ∀ (files : Files) (depth : Nat) (origin : Origin) (target : Target) (lineWidth : Option Int),
      preprocess files depth origin target d lineWidth =
        let done := preprocess files depth origin target c lineWidth
        { done with log := done.log.map (·.under d) } := by
  have hroles : ∀ ch, d.roleOf ch = c.roleOf ch :=
    fun ch => (Config.sameRoles_iff_roleOf.1 h ch).symm
  exact ⟨fun depth s ops => Lexer.Session.run_congr hroles depth ops s,
    fun files depth origin target lineWidth =>
      preprocess_congr hroles files depth origin target lineWidth⟩

/-- The standard configuration with its operators in another order. -/
def Config.reversed : Config :=
  { Config.standard with
    operators := Config.standard.operators.reverse
    nodup := by decide }

/-- A macro, a number and a group that is not opened, from a source that fails at its end. -/
theorem interchangeable_reversed :
    let text := "$a(+-)#2a) #".toList
    let s := Lexer.Session.start (.ofText text (.fault (.system "disk error")))
    let ops : List Lexer.Operation := [.readToken, .peek, .walk 0, .readAll, .next]
    let origin := Origin.stream ⟨"$a(+-)#2a".toList, .quiet⟩
    let done := preprocess ⟨[]⟩ 9 origin (.sink (.failingAfter 3 (.system "disk full"))) .standard
      (some 2)
    Config.standard.sameRoles .reversed = true ∧ Config.standard ≠ .reversed ∧
      s.run .reversed 9 ops = s.run .standard 9 ops ∧
      preprocess ⟨[]⟩ 9 origin (.sink (.failingAfter 3 (.system "disk full"))) .reversed (some 2) =
        { done with log := done.log.map (·.under .reversed) } := by
  intro text s ops origin done
  have hsame : Config.standard.sameRoles .reversed = true := by decide
  obtain ⟨hrun, hpreprocess⟩ := interchangeable hsame
  exact ⟨hsame, by decide, hrun 9 s ops, hpreprocess ..⟩

end Unroll
