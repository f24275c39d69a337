import LedgerScript.Proofs.Machine.Pace

/-!
# Ceilings

No ceiling is crossed in silence.  A run that none of them stops stays within
its budget, and a run that one of them stops reports the use that crossed it, so
nothing was charged and nothing evaluated after it was found (`executeBounded_crossing`).
For the calls that a ledger answers this is `Ledger.answer_within_budget`.
-/

namespace LedgerScript

variable {σ : Type}

/-- `resolve` never fails with the error of a ceiling, `OverBudget`. -/
def Surroundings.FindsFreely (s : Surroundings σ) : Prop :=
  ∀ ⦃id : ContractId⦄ ⦃before after : σ⦄ ⦃e : ContractError⦄,
    s.resolve id before = .error e after → ¬ e.OverBudget

theorem Surroundings.findsFreely_bare : Surroundings.bare.FindsFreely := by
  intro callee before after e failed
  cases failed
  exact id

/-! ## Evaluations -/

/-- Takes down the meter at `entered`, when an evaluation begins. -/
def Meter.begun (event : Event) (_ : Variables) (host : Host) (seen : List Meter) : List Meter :=
  if event = .entered then host.meter :: seen else seen

/-- The meters with which the evaluations of a run began, the last one first. -/
def evaluations (turns : Nat) (s : Surroundings σ) (contract : Contract) (context : Context)
    (view : View) (budget : Budget) (interval : UInt64) (outside : σ) : List Meter :=
  (executeBounded turns maxNesting (s.noting Meter.begun) contract context view budget interval
    (outside, [])).2.2

/-- `n` evaluations have begun, and the meter of each was `Uncrossed`: none began after a
ceiling was found crossed. -/
structure Meter.Seen (budget : Budget) (interval : UInt64) (n : Nat) (seen : List Meter) :
    Prop where
  length : seen.length = n
  uncrossed : ∀ m ∈ seen, m.Uncrossed budget interval

theorem Meter.interval_new (budget : Budget) (interval : UInt64) :
    (new budget interval).interval.toNat = max interval.toNat 1 := by
  unfold new
  dsimp only
  split
  · rename_i zero
    subst zero
    rfl
  · rename_i positive
    exact (Nat.max_eq_left (UInt64.lt_iff_toNat_lt.1 (UInt64.pos_iff_ne_zero.2 positive))).symm

/-- For `Near`, the interval 0 counts as 1, which is what `Meter.new` makes of it. -/
theorem Usage.near_interval_iff {u : Usage} {budget : Budget} {interval : UInt64} :
    u.Near budget (Meter.new budget interval).interval ↔ u.Near budget interval := by
  have every := Meter.interval_new budget interval
  constructor <;> intro near <;> have steps := near.steps
  · exact ⟨by omega, near.memory, near.depth⟩
  · exact ⟨by omega, near.memory, near.depth⟩

namespace Pace

/-- The `Pace` of a run whose evaluations are noted: their meters are `Seen`. -/
def noting (σ : Type) (budget : Budget) (interval : UInt64) : Pace (σ × List Meter) where
  budget := budget
  interval := (Meter.new budget interval).interval
  kept n o := Meter.Seen budget (Meter.new budget interval).interval n o.2

variable {budget : Budget} {interval : UInt64} {s : Surroundings σ}

theorem watches_noting (free : s.FindsFreely) :
    (noting σ budget interval).Watches (s.noting Meter.begun) where
  entered m uncrossed kept :=
    ⟨congrArg (· + 1) kept.length, List.forall_mem_cons.2 ⟨uncrossed, kept.uncrossed⟩⟩
  other m different kept := by
    have same : (Exec.notice (s.noting Meter.begun) _ m).outside.2 = m.outside.2 :=
      if_neg different
    unfold noting at kept ⊢
    dsimp only at kept ⊢
    rw [same]
    exact kept
  resolve ends kept := by
    unfold noting at kept ⊢
    dsimp only at kept ⊢
    rw [Surroundings.notes_of_resolve ends]
    exact kept
  found {id before after e} failed := by
    unfold Surroundings.noting at failed
    dsimp only at failed
    cases found : s.resolve id before.1 with
    | ok contract outside =>
      rw [found] at failed
      cases failed
    | error f outside =>
      rw [found] at failed
      cases failed
      exact free found

theorem fits_start (view : View) (context : Context) (outside : σ) :
    (noting σ budget interval).Fits 0
      (.start (.new (.new budget interval) view context) (outside, [])) :=
  ⟨Meter.paced_new budget interval, rfl, fun _ none => nomatch none⟩

theorem allows_of_maxTurns_le {turns : Nat} (enough : maxTurns ≤ turns) :
    (noting σ budget interval).Allows turns :=
  fun finite => Nat.le_trans (finite.le_maxTurns _) enough

variable {turns : Nat} (free : s.FindsFreely)

include free

/-- The `evaluations` of a run are `Seen` at the end: no more than a finite ceiling and
one interval of steps, and none began after a ceiling was found crossed. -/
theorem seen_evaluations (ht : (noting σ budget interval).Allows turns) (contract : Contract)
    (context : Context) (view : View) (outside : σ) :
    ∃ n, Meter.Seen budget (Meter.new budget interval).interval n
        (evaluations turns s contract context view budget interval outside) ∧
      (budget.Finite → n ≤ budget.maxSteps.toNat + max interval.toNat 1) := by
  have kept := runEntry ht ht (watches_noting free) contract context 0 _ 0
    (fits_start view context outside) (Nat.le_add_left ..)
  rw [← Meter.interval_new budget interval]
  unfold evaluations executeBounded
  obtain ⟨-, ⟨v, next, later, ran, -, fits, -⟩ | ⟨e, next, failed, stopped⟩⟩ := kept
  · rw [ran]
    exact ⟨later, fits.kept, fun finite => Nat.le_of_lt (fits.bound finite)⟩
  · rw [failed]
    exact stopped.kept

/-- What `executeBounded` reports as used is what its end `Shows`, or is `Near` the budget
if it ends with a value. -/
theorem shows_executeBounded (ht : (noting σ budget interval).Allows turns) (contract : Contract)
    (context : Context) (view : View) (outside : σ) :
    let outcome :=
      (executeBounded turns maxNesting s contract context view budget interval outside).1
    match outcome.result with
    | .ok _ => outcome.usage.Near budget interval
    | .error e => outcome.usage.Shows budget (Meter.new budget interval).interval e := by
  have kept := runEntry ht ht (watches_noting free) contract context 0 _ 0
    (fits_start view context outside) (Nat.le_add_left ..)
  dsimp only
  rw [← (executeBounded_noting turns maxNesting s Meter.begun contract context view budget interval
    outside []).1]
  unfold executeBounded
  obtain ⟨-, ⟨v, next, later, ran, -, fits, -⟩ | ⟨e, next, failed, stopped⟩⟩ := kept
  · rw [ran]
    exact Usage.near_interval_iff.1 fits.meter.near
  · rw [failed]
    exact stopped.shows

end Pace

/-- **No ceiling is crossed in silence.**  Let `executeBounded` run in surroundings that
do `FindsFreely`.  No evaluation begins after a ceiling was found crossed, in whatever
contract: its meter is `Uncrossed`.  If no ceiling stops the run, its usage is `Near` the
budget, that is, within it but for the steps since they were last compared.  If the
ceiling on steps or on memory stops it, `exhausted` carries what the run reports as used,
and that is above the ceiling.  A run that its bound on turns stops, with
`turnsExhausted`, has not come to an end; under a `Finite` budget there is no such run. -/
theorem executeBounded_crossing (s : Surroundings σ) (free : s.FindsFreely) (contract : Contract)
    (context : Context) (view : View) (budget : Budget) (interval : UInt64) (outside : σ)
    (turns : Nat) (enough : maxTurns ≤ turns)
    (ended : ¬ budget.Finite → (executeBounded turns maxNesting s contract context view budget
      interval outside).1.result ≠ .error Meter.turnsExhausted) :
    let outcome :=
      (executeBounded turns maxNesting s contract context view budget interval outside).1
    (∀ m ∈ evaluations turns s contract context view budget interval outside,
      m.Uncrossed budget (Meter.new budget interval).interval) ∧
    ((∀ e, outcome.result = .error e → ¬ e.OverBudget) → outcome.usage.Near budget interval) ∧
    (∀ used limit, outcome.result = .error (.exhausted .steps used limit) →
      limit = budget.maxSteps ∧ used = outcome.usage.steps ∧ limit < used) ∧
    ∀ used limit, outcome.result = .error (.exhausted .memory used limit) →
      limit = budget.maxMemory ∧ used = outcome.usage.memory ∧ limit < used := by
  have allows : (Pace.noting σ budget interval).Allows turns := Pace.allows_of_maxTurns_le enough
  have shown := Pace.shows_executeBounded free allows contract context view outside
  obtain ⟨n, seen, -⟩ := Pace.seen_evaluations free allows contract context view outside
  dsimp only at shown ⊢
  refine ⟨seen.uncrossed, fun spared => ?_, fun used limit failed => ?_,
    fun used limit failed => ?_⟩
  · split at shown
    · exact shown
    · rename_i e failed
      exact Usage.near_interval_iff.1 (shown.near (spared e failed))
  · rw [failed] at shown
    rcases shown with crossed | ⟨endless, exhausted⟩
    · exact crossed
    · exact absurd (failed.trans (congrArg _ exhausted)) (ended endless)
  · rw [failed] at shown
    exact shown

/-- The ceiling on steps has stopped the run. -/
def Outcome.outOfSteps (o : Outcome) : Bool :=
  match o.result with
  | .error (.exhausted .steps _ _) => true
  | _ => false

namespace NestedInvocation

/-- What the caller's invocation stands in. -/
def surroundings : Surroundings Unit := { entries := ∅, limits := {}, resolve }

theorem findsFreely_surroundings : surroundings.FindsFreely := by
  intro callee before after e failed
  change resolve callee before = .error e after at failed
  unfold resolve at failed
  split at failed <;> cases failed
  exact id

theorem run_eq (budget : Budget) (interval : UInt64) :
    run budget interval =
      execute surroundings caller (.forInvoke caller.id "" "" .null 0) {} budget interval () := rfl

/-- `executeBounded_crossing` for the nested invocation with some steps too few: comparing
them every seventh step, it is stopped within the call, and reports the steps that it
used. -/
theorem run_stopped :
    surroundings.FindsFreely ∧ (∃ used, (run ⟨53, 198, 2⟩ 7).1.result =
      .error (.exhausted .steps used 53) ∧ used = (run ⟨53, 198, 2⟩ 7).1.usage.steps ∧ 53 < used) ∧
    ∀ m ∈ evaluations maxTurns surroundings caller (.forInvoke caller.id "" "" .null 0) {}
      ⟨53, 198, 2⟩ 7 (), m.Uncrossed ⟨53, 198, 2⟩ 7 := by
  have stopped : (run ⟨53, 198, 2⟩ 7).1.outOfSteps = true := by decide +kernel
  have finite : Budget.Finite ⟨53, 198, 2⟩ := by decide
  rw [run_eq] at stopped ⊢
  have crossing := executeBounded_crossing surroundings findsFreely_surroundings caller
    (.forInvoke caller.id "" "" .null 0) {} ⟨53, 198, 2⟩ 7 () maxTurns (Nat.le_refl _)
    fun endless => absurd finite endless
  rw [executeBounded_max] at crossing
  obtain ⟨uncrossed, -, steps, -⟩ := crossing
  refine ⟨findsFreely_surroundings, ?_, uncrossed⟩
  unfold Outcome.outOfSteps at stopped
  split at stopped
  · rename_i used limit failed
    obtain ⟨rfl, shown, above⟩ := steps used limit failed
    exact ⟨used, failed, shown, above⟩
  · cases stopped

end NestedInvocation

end LedgerScript
