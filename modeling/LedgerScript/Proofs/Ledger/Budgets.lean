import LedgerScript.Proofs.Ledger.Atomicity
import LedgerScript.Proofs.Machine.Termination

/-!
# The budget of a call

A ledger refuses a contract for no want of steps, memory or frames
(`Ledger.findsFreely_surroundings`), so what holds of the runs of one budget holds of the
calls that a ledger answers, nested ones included.  Main statements:
`Ledger.answer_within_budget`, `Ledger.answer_ends`.
-/

namespace LedgerScript

theorem ContractError.OfOpening.not_overBudget {e : ContractError} (h : e.OfOpening) :
    ¬ e.OverBudget := by
  intro exceeded
  cases e <;> first | exact h | exact exceeded

theorem Usage.near_empty (b : Budget) (interval : UInt64) : ({} : Usage).Near b interval where
  steps := Nat.zero_le _
  memory := UInt64.zero_le
  depth := UInt16.zero_le

theorem Ledger.findsFreely_surroundings (l : Ledger) : l.surroundings.FindsFreely :=
  fun _ _ _ _ refused => (resolve_refuses refused).not_overBudget

namespace Entry

variable {l : Ledger} {e : Entry}

/-- The meters with which the evaluations of a call began, the last one first: the
`LedgerScript.evaluations` of `run`. -/
def evaluations (e : Entry) (l : Ledger) : List Meter :=
  LedgerScript.evaluations maxTurns l.surroundings e.contract e.context e.view
    (l.config.budget e.context.kind) l.config.checkInterval e.cache

/-- A run of a ledger's contract has turns enough with `maxTurns`. -/
theorem allows_maxTurns (e : Entry) (l : Ledger) :
    (Pace.noting Cache (l.config.budget e.context.kind) l.config.checkInterval).Allows maxTurns :=
  Pace.allows_of_maxTurns_le (Nat.le_refl _)

theorem seen_evaluations (e : Entry) (l : Ledger) :
    ∃ n, Meter.Seen (l.config.budget e.context.kind)
        (Meter.new (l.config.budget e.context.kind) l.config.checkInterval).interval n
        (e.evaluations l) ∧
      ((l.config.budget e.context.kind).Finite →
        n ≤ (l.config.budget e.context.kind).maxSteps.toNat +
          max l.config.checkInterval.toNat 1) :=
  Pace.seen_evaluations l.findsFreely_surroundings (e.allows_maxTurns l) e.contract e.context
    e.view e.cache

/-- The usage of `run` is what its result `Shows`. -/
theorem shows_run (e : Entry) (l : Ledger) :
    match (e.run l).1.result with
    | .ok _ => (e.run l).1.usage.Near (l.config.budget e.context.kind) l.config.checkInterval
    | .error f =>
      (e.run l).1.usage.Shows (l.config.budget e.context.kind)
        (Meter.new (l.config.budget e.context.kind) l.config.checkInterval).interval f := by
  have shown := Pace.shows_executeBounded l.findsFreely_surroundings (e.allows_maxTurns l)
    e.contract e.context e.view e.cache
  rw [executeBounded_max] at shown
  exact shown

/-- The failure that `verdict` reports is what the usage `Shows`, and without one the
usage is `Near` the budget. -/
theorem shows_verdict (ready : e.Ready l) :
    (∀ f, (e.verdict l (e.run l).1).settlement = .failed f →
      (e.run l).1.usage.Shows (l.config.budget e.context.kind)
        (Meter.new (l.config.budget e.context.kind) l.config.checkInterval).interval f) ∧
    ((∀ f, (e.verdict l (e.run l).1).settlement ≠ .failed f) →
      (e.run l).1.usage.Near (l.config.budget e.context.kind) l.config.checkInterval) := by
  have shown := e.shows_run l
  cases ran : (e.run l).1.result with
  | ok v =>
    rw [ran] at shown
    refine ⟨fun f failed => ?_, fun _ => shown⟩
    rcases error_of_verdict ready failed with returned | ⟨g, -, rfl⟩
    · cases ran.symm.trans returned
    · exact (Usage.near_interval_iff.2 shown).shows id
  | error g =>
    rw [ran] at shown
    have settled : (e.verdict l (e.run l).1).settlement = .failed g := by
      unfold verdict
      rw [ran]
    refine ⟨fun f failed => ?_, fun spared => absurd settled (spared g)⟩
    cases settled.symm.trans failed
    exact shown

end Entry

namespace Ledger

/-- The failure that `answer` reports is what the usage `Shows`, and without one the usage
is `Near` the budget. -/
theorem shows_answer (l : Ledger) (r : Request) :
    let report := (l.answer r).1
    let budget := l.config.budget r.kind
    (∀ f, report.settlement = .failed f →
      report.usage.Shows budget (Meter.new budget l.config.checkInterval).interval f) ∧
    ((∀ f, report.settlement ≠ .failed f) →
      report.usage.Near budget l.config.checkInterval) := by
  cases opened : l.opening r with
  | error refusal =>
    rw [answer_of_refused opened]
    refine ⟨fun f failed => ?_, fun spared => absurd rfl (spared refusal.error)⟩
    cases failed
    exact (Usage.near_empty _ _).shows (opening_refuses opened).not_overBudget
  | ok e =>
    obtain ⟨kind, -, -, ready⟩ := opening_eq_ok opened
    rw [answer_of_entered opened, ← kind]
    exact Entry.shows_verdict ready

/-- **No call crosses its budget in silence.**  Under a budget of which the ceiling on
steps is `Budget.Finite`, a call that is answered no `ContractError.OverBudget` has used
what is `Usage.Near` the budget.  An answer `exhausted` for steps or memory names the
ceiling of the budget, and what the report says was used, which is above it.  Every
evaluation that the call began, in whatever contract, found the meter `Uncrossed`. -/
theorem answer_within_budget (l : Ledger) (r : Request)
    (finite : (l.config.budget r.kind).Finite) :
    let report := (l.answer r).1
    let budget := l.config.budget r.kind
    ((∀ f, report.settlement = .failed f → ¬ f.OverBudget) →
      report.usage.Near budget l.config.checkInterval) ∧
    (∀ used limit, report.settlement = .failed (.exhausted .steps used limit) →
      limit = budget.maxSteps ∧ used = report.usage.steps ∧ limit < used) ∧
    (∀ used limit, report.settlement = .failed (.exhausted .memory used limit) →
      limit = budget.maxMemory ∧ used = report.usage.memory ∧ limit < used) ∧
    ∀ e, l.opening r = .ok e → ∀ m ∈ e.evaluations l,
      m.Uncrossed budget (Meter.new budget l.config.checkInterval).interval := by
  obtain ⟨shows, near⟩ := l.shows_answer r
  refine ⟨fun spared => ?_, fun used limit failed => ?_, fun used limit failed =>
    shows _ failed, fun e opened => ?_⟩
  · cases settled : (l.answer r).1.settlement with
    | failed f => exact Usage.near_interval_iff.1 ((shows f settled).near (spared f settled))
    | committed v => exact near fun f failed => nomatch settled.symm.trans failed
    | discarded v => exact near fun f failed => nomatch settled.symm.trans failed
  · rcases shows _ failed with crossed | ⟨endless, -⟩
    · exact crossed
    · exact absurd finite endless
  · obtain ⟨kind, -, -, -⟩ := opening_eq_ok opened
    rw [← kind]
    exact (e.seen_evaluations l).choose_spec.1.uncrossed

/-- **Every call comes to an end.**  Under a budget of which the ceiling on steps is
`Budget.Finite`, no call is answered `Meter.turnsExhausted`.  The run of its entry point
is the same under all larger bounds on turns and levels, and begins no more evaluations
than the ceiling and one interval of steps. -/
theorem answer_ends (l : Ledger) (r : Request) (finite : (l.config.budget r.kind).Finite) :
    (l.answer r).1.settlement ≠ .failed Meter.turnsExhausted ∧
    ∀ e, l.opening r = .ok e →
      (∀ turns levels,
        (l.config.budget r.kind).maxSteps.toNat + max l.config.checkInterval.toNat 1 ≤ turns →
          maxNesting ≤ levels →
            executeBounded turns levels l.surroundings e.contract e.context e.view
              (l.config.budget r.kind) l.config.checkInterval e.cache = e.run l) ∧
      (e.evaluations l).length ≤
        (l.config.budget r.kind).maxSteps.toNat + max l.config.checkInterval.toNat 1 := by
  refine ⟨fun endless => ?_, fun e opened => ?_⟩
  · exact Usage.not_shows_turnsExhausted finite ((l.shows_answer r).1 _ endless)
  · obtain ⟨kind, -, -, -⟩ := opening_eq_ok opened
    rw [← kind] at finite ⊢
    refine ⟨fun turns levels enough deep => ?_, ?_⟩
    · obtain ⟨extra, rfl⟩ := Nat.exists_eq_add_of_le deep
      unfold Entry.run
      rw [← executeBounded_max]
      exact Pace.executeBounded_eq l.findsFreely_surroundings finite (e.allows_maxTurns l)
        (Pace.allows_of_le enough) e.contract e.context e.view e.cache extra
    · obtain ⟨n, seen, few⟩ := e.seen_evaluations l
      rw [seen.length]
      exact few finite

end Ledger

end LedgerScript
