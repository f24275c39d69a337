import LedgerScript.Proofs.Machine.Ceilings

/-!
# Termination

Every run under a finite ceiling on steps comes to an end by itself: it never
meets the bound on the turns of a loop, and the levels are bounded by the meter.
So larger bounds change nothing, and the number of evaluations is bounded by the
steps that are paid for (`execute_terminates`).  For the calls that a ledger answers this is
`Ledger.answer_ends`.
-/

namespace LedgerScript

variable {σ : Type} {budget : Budget} {interval : UInt64} {s : Surroundings σ} {turns turns' : Nat}

namespace Pace

theorem allows_of_le (enough : budget.maxSteps.toNat + max interval.toNat 1 ≤ turns) :
    (noting σ budget interval).Allows turns := by
  intro _
  rw [← Meter.interval_new budget interval] at enough
  exact enough

/-- `executeBounded` is the same under all bounds that a `Finite` budget does not let it
meet. -/
theorem executeBounded_eq (free : s.FindsFreely) (finite : budget.Finite)
    (ht : (noting σ budget interval).Allows turns)
    (ht' : (noting σ budget interval).Allows turns') (contract : Contract) (context : Context)
    (view : View) (outside : σ) (extra : Nat) :
    executeBounded turns' (maxNesting + extra) s contract context view budget interval outside =
      executeBounded turns maxNesting s contract context view budget interval outside := by
  obtain ⟨same, -⟩ := runEntry ht ht' (watches_noting free) contract context extra _ 0
    (fits_start view context outside) (Nat.le_add_left ..)
  have noted := congrArg Exec.Ending.outcome (same finite)
  have first := executeBounded_noting turns maxNesting s Meter.begun contract context view budget
    interval outside []
  have second := executeBounded_noting turns' (maxNesting + extra) s Meter.begun contract context
    view budget interval outside []
  change executeBounded turns' (maxNesting + extra) _ contract context view budget interval
    (outside, []) = executeBounded turns maxNesting _ contract context view budget interval
    (outside, []) at noted
  dsimp only at first second
  rw [noted] at second
  exact Prod.ext (second.1.symm.trans first.1) (second.2.symm.trans first.2)

end Pace

theorem Usage.not_shows_turnsExhausted {u : Usage} (finite : budget.Finite) :
    ¬ u.Shows budget interval Meter.turnsExhausted := by
  rintro (⟨-, -, above⟩ | ⟨endless, -⟩)
  · exact absurd above (UInt64.lt_irrefl _)
  · exact endless finite

/-- **Every run comes to an end.**  Whatever contracts are called, under a finite ceiling
on steps `execute` comes to what `executeBounded` comes to with all bounds on turns and
levels that are large enough, its result is never `turnsExhausted`, and its `evaluations`
are no more than the ceiling and one interval of steps. -/
theorem execute_terminates (s : Surroundings σ) (free : s.FindsFreely) (contract : Contract)
    (context : Context) (view : View) (budget : Budget) (interval : UInt64) (outside : σ)
    (finite : budget.maxSteps.toNat < 0xffffffffffffffff) :
    (∀ turns levels, budget.maxSteps.toNat + max interval.toNat 1 ≤ turns → maxNesting ≤ levels →
      executeBounded turns levels s contract context view budget interval outside =
        execute s contract context view budget interval outside) ∧
    (execute s contract context view budget interval outside).1.result ≠
      .error Meter.turnsExhausted ∧
    (evaluations maxTurns s contract context view budget interval outside).length ≤
      budget.maxSteps.toNat + max interval.toNat 1 := by
  have most : (Pace.noting σ budget interval).Allows maxTurns :=
    Pace.allows_of_maxTurns_le (Nat.le_refl _)
  refine ⟨fun turns levels enough deep => ?_, fun endless => ?_, ?_⟩
  · obtain ⟨extra, rfl⟩ := Nat.exists_eq_add_of_le deep
    rw [← executeBounded_max]
    exact Pace.executeBounded_eq free finite most (Pace.allows_of_le enough) contract context view
      outside extra
  · have shown := Pace.shows_executeBounded free most contract context view outside
    rw [executeBounded_max] at shown
    dsimp only at shown
    rw [endless] at shown
    exact Usage.not_shows_turnsExhausted finite shown
  · obtain ⟨n, seen, few⟩ := Pace.seen_evaluations free most contract context view outside
    rw [seen.length]
    exact few finite

namespace EndlessLoop

/-- Turns for ever. -/
def contract : Contract := .specimen 0 [.loop (.bool true) [.evaluate (.int 1)]]

/-- `execute_terminates` for the loop: a ceiling of twenty steps, compared every fourth
step, stops it at its twenty-fourth evaluation at the latest. -/
theorem evaluations_le :
    (∀ turns levels, 24 ≤ turns → maxNesting ≤ levels →
      executeBounded turns levels .bare contract (.forInvoke contract.id "" "" .null 0) {}
        ⟨20, 100, 2⟩ 4 () =
      execute .bare contract (.forInvoke contract.id "" "" .null 0) {} ⟨20, 100, 2⟩ 4 ()) ∧
    (evaluations maxTurns .bare contract (.forInvoke contract.id "" "" .null 0) {}
      ⟨20, 100, 2⟩ 4 ()).length ≤ 24 := by
  have ended := execute_terminates .bare Surroundings.findsFreely_bare contract
    (.forInvoke contract.id "" "" .null 0) {} ⟨20, 100, 2⟩ 4 () (by decide)
  exact ⟨ended.1, ended.2.2⟩

end EndlessLoop

end LedgerScript
