import LedgerScript.Proofs.Machine.Noting
import LedgerScript.Proofs.Machine.Transparency

/-!
# Other bounds

The turns of a loop and the levels of evaluation are bounded.  Here both bounds
are parameters (`executeBounded`); with those of the language it is the run that
is executed (`executeBounded_max`).  Relations between runs that are closed under
all parts hold between runs under any bounds (`Parametric.runEntryBounded`).
-/

namespace LedgerScript

open Script (Program Expr Stmt)

variable {σ τ ν α : Type}

namespace Evaluator

/-- What `execBody` does when no loop turns more than `turns` times. -/
def execBounded (turns : Nat) (below : Evaluator σ) (p : Program) : Stmt → Exec σ Flow
  | .loop condition body => below.turn p condition body turns
  | stmt => below.execBody p stmt

/-- `ofLevels` with a bound on the turns of every loop. -/
def bounded (turns : Nat) (s : Surroundings σ) : Nat → Evaluator σ
  | 0 => ground
  | n + 1 =>
    { eval := fun p e => nested s ((bounded turns s n).evalBody s p e)
      exec := fun p stmt => nested s ((bounded turns s n).execBounded turns p stmt) }

theorem execBounded_of_ne {turns : Nat} {below : Evaluator σ} {p : Program} {stmt : Stmt}
    (other : ∀ condition body, stmt ≠ .loop condition body) :
    below.execBounded turns p stmt = below.execBody p stmt := by
  cases stmt with
  | loop condition body => exact absurd rfl (other condition body)
  | _ => rfl

theorem execBounded_maxTurns (below : Evaluator σ) (p : Program) :
    below.execBounded maxTurns p = below.execBody p := by
  funext stmt
  cases stmt <;> rfl

theorem bounded_maxTurns (s : Surroundings σ) (n : Nat) : bounded maxTurns s n = ofLevels s n := by
  induction n with
  | zero => rfl
  | succ n ih =>
    have bodies : execBounded maxTurns (ofLevels s n) = (ofLevels s n).execBody :=
      funext (execBounded_maxTurns _)
    unfold bounded ofLevels above
    rw [ih, bodies]

end Evaluator

/-- `runEntry` under bounds. -/
def runEntryBounded (turns levels : Nat) (s : Surroundings σ) (contract : Contract)
    (context : Context) : Exec σ Value :=
  if contract.declares context.entryPoint then
    (Evaluator.bounded turns s levels).run contract.program context.entryPoint.name
      context.entryArgs
  else throw (.missingEntryPoint context.entryPoint)

theorem runEntryBounded_max (s : Surroundings σ) (contract : Contract) (context : Context) :
    runEntryBounded maxTurns maxNesting s contract context = runEntry s contract context := by
  unfold runEntryBounded runEntry Evaluator.whole
  rw [Evaluator.bounded_maxTurns]

/-- `execute` under bounds on turns and levels. -/
def executeBounded (turns levels : Nat) (s : Surroundings σ) (contract : Contract)
    (context : Context) (view : View) (budget : Budget) (interval : UInt64) (outside : σ) :
    Outcome × σ :=
  Exec.Ending.outcome (runEntryBounded turns levels s contract context
    (.start (.new (.new budget interval) view context) outside))

theorem executeBounded_max (s : Surroundings σ) (contract : Contract) (context : Context)
    (view : View) (budget : Budget) (interval : UInt64) (outside : σ) :
    executeBounded maxTurns maxNesting s contract context view budget interval outside =
      execute s contract context view budget interval outside := by
  unfold executeBounded
  rw [runEntryBounded_max]
  exact (execute_eq_outcome ..).symm

/-! ## Related runs -/

section Levels

variable {g : Regime} {s : Surroundings σ} {t : Surroundings τ} {R : HoldingRelation σ τ}

/-- The parts of a `bounded` level are related where those of the level below and its
calls are. -/
theorem ParametricParts.boundedAbove (h : ParametricParts g s t R) {turns n : Nat}
    (below : Evaluator.RelatedOn g R (Evaluator.bounded turns s n) (Evaluator.bounded turns t n))
    (calls : Evaluator.CallsRelatedOn g s t R (Evaluator.bounded turns s n)
      (Evaluator.bounded turns t n)) :
    Evaluator.RelatedOn g R (Evaluator.bounded turns s (n + 1))
      (Evaluator.bounded turns t (n + 1)) where
  eval hp e ha := h.nested (h.evalBody below hp calls e ha)
  exec {p} hp stmt ha := by
    refine h.nested ?_
    by_cases looping : ∃ condition body, stmt = .loop condition body
    · obtain ⟨condition, body, rfl⟩ := looping
      rw [Stmt.acts, Regime.allows_append] at ha
      exact h.turn below hp (h.turns _) condition body turns ha.1 ha.2
    · have other : ∀ condition body, stmt ≠ .loop condition body :=
        fun condition body loop => looping ⟨condition, body, loop⟩
      rw [Evaluator.execBounded_of_ne other, Evaluator.execBounded_of_ne other]
      exact h.execBody below hp stmt ha

theorem Evaluator.keepsContexts_bounded (turns : Nat) (s : Surroundings σ) (n : Nat) :
    (bounded turns s n).KeepsContexts := by
  have related : RelatedOn .lax (fun _ _ _ _ x (_ : Exec σ _) => x.KeepsContexts)
      (bounded turns s n) (bounded turns s n) := by
    induction n with
    | zero => exact ⟨fun _ _ _ => .throw _, fun _ _ _ => .throw _⟩
    | succ n below =>
      have calls := keepsContexts_of_related below s
      exact (parts_keepContexts s).boundedAbove below fun _ target method args _ =>
        calls.callContract target method args
  exact keepsContexts_of_related related s

theorem ParametricOn.bounded (h : ParametricOn g s t R) (turns n : Nat) :
    Evaluator.RelatedOn g R (Evaluator.bounded turns s n) (Evaluator.bounded turns t n) := by
  induction n with
  | zero => exact ⟨fun _ _ _ => h.ground _, fun _ _ _ => h.widen (h.ground _)⟩
  | succ n below =>
    exact h.toParametricParts.boundedAbove below fun host =>
      h.callContract host (Evaluator.keepsContexts_bounded turns s n)
        (Evaluator.keepsContexts_bounded turns t n) (h.run below)

end Levels

theorem Parametric.runEntryBounded {s : Surroundings σ} {t : Surroundings τ}
    {R : Phrase → RunRelation σ τ} (h : Parametric s t R) (turns levels : Nat)
    (contract : Contract) (context : Context) :
    R .expression (runEntryBounded turns levels s contract context)
      (runEntryBounded turns levels t contract context) := by
  unfold LedgerScript.runEntryBounded
  split
  · exact h.lax.run (h.lax.bounded turns levels) (Regime.admits_lax _) _ _ (Regime.each_lax _)
  · exact h.missing _

/-- `executeBounded` comes to the same over `Surroundings.noting` as when nobody watches. -/
theorem executeBounded_noting (turns levels : Nat) (s : Surroundings σ)
    (note : Event → Variables → Host → ν → ν) (contract : Contract) (context : Context)
    (view : View) (budget : Budget) (interval : UInt64) (outside : σ) (notes : ν) :
    let plain := executeBounded turns levels s contract context view budget interval outside
    let noted := executeBounded turns levels (s.noting note) contract context view budget interval
      (outside, notes)
    noted.1 = plain.1 ∧ noted.2.1 = plain.2 := by
  obtain ⟨later, ran⟩ := (parametric_noted s note).runEntryBounded turns levels contract context
    (Machine.start (Host.new (Meter.new budget interval) view context) outside) notes
  change runEntryBounded turns levels (s.noting note) contract context
    (Machine.start (Host.new (Meter.new budget interval) view context) (outside, notes)) = _ at ran
  unfold executeBounded
  dsimp only
  rw [ran]
  cases runEntryBounded turns levels s contract context
    (Machine.start (Host.new (Meter.new budget interval) view context) outside) <;>
    exact ⟨rfl, rfl⟩

end LedgerScript
