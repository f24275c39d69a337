import LedgerScript.Proofs.Ledger.History
import LedgerScript.Proofs.Machine.Guards

/-!
# Defences that are never needed

A ledger guards what it relies on: that phases follow one another as they should, that a
code record can be written, that a commit breaks no rule, that a contract has a context
while it runs, and that nothing has changed under a call that has read it.  None of the
guards is ever met.  A run has no such error (`execute_guarded`), `Call.stageCode` has
none (`Call.stageCode_eq`), and since contracts conduct themselves (`Entry.run_sound`),
neither has the verdict on a run (`Entry.verdict_guarded`).  Main statement:
`Ledger.defences_unmet`.
-/

namespace LedgerScript

theorem ContractError.OfOpening.not_defensive {e : ContractError} (h : e.OfOpening) :
    ¬ e.Defensive := by
  intro defensive
  cases e <;> first | exact h | exact defensive

/-! ## Verdicts -/

namespace Entry

variable {e : Entry} {l : Ledger}

theorem run_guarded {f : ContractError} (failed : (e.run l).1.result = .error f) :
    ¬ f.Defensive :=
  execute_guarded (fun _ _ _ _ refused => (Ledger.resolve_refuses refused).not_defensive)
    e.contract e.context e.view _ _ _ failed

/-- A `verdict` reports no `Defensive` error. -/
theorem verdict_guarded (ready : e.Ready l) {f : ContractError}
    (failed : (e.verdict l (e.run l).1).settlement = .failed f) : ¬ f.Defensive := by
  rcases error_of_verdict ready failed with returned | ⟨g, -, rfl⟩
  · exact run_guarded returned
  · exact not_false

end Entry

namespace Ledger

variable {l : Ledger}

theorem answer_guarded (l : Ledger) (r : Request) {f : ContractError}
    (failed : (l.answer r).1.settlement = .failed f) : ¬ f.Defensive := by
  cases opened : l.opening r with
  | error refusal =>
    rw [answer_of_refused opened] at failed
    cases failed
    exact (opening_refuses opened).not_defensive
  | ok e =>
    obtain ⟨-, -, -, ready⟩ := opening_eq_ok opened
    rw [answer_of_entered opened] at failed
    exact Entry.verdict_guarded ready failed

/-- **No defence is ever needed.**  Whatever happens to a ledger, no call is answered
with `invariantViolated`, the error that a rule of the host was about to be broken: a
phase out of turn, a code record that cannot be written, a commit of a view that breaks
the rules or must not be committed, or a contract without a context.  None is answered
with `stateConflict`, the error that committed state has changed under it. -/
theorem defences_unmet (l : Ledger) (steps : List Step) {r : Request} {report : Report}
    (answered : (r, report) ∈ l.reports steps) :
    (∀ why, report.settlement ≠ .failed (.invariantViolated why)) ∧
      ∀ key, report.settlement ≠ .failed (.stateConflict key) := by
  have guarded : ∀ f, report.settlement = .failed f → ¬ f.Defensive := by
    induction steps generalizing l with
    | nil => cases answered
    | cons step rest ih =>
      cases step with
      | call q =>
        rcases List.mem_cons.1 answered with same | later
        · cases same
          exact fun f => answer_guarded l r
        · exact ih _ later
      | evict id => exact ih _ answered
      | refuse refusing => exact ih _ answered
  exact ⟨fun why failed => guarded _ failed trivial, fun key failed => guarded _ failed trivial⟩

end Ledger

namespace Retry

/-- What the deploy is answered that the store refuses. -/
def refused : Report := (((Ledger.new {} {}).take (.refuse true)).answer (.deploy request)).1

/-- A deploy that the store refuses is among the calls, and it is the store that
refuses it. -/
theorem refused_undefended :
    (.deploy request, refused) ∈ (Ledger.new {} {}).reports steps ∧
      refused.settlement.error? = some (.state (.commitRejected "store is refusing commits")) ∧
      (∀ why, refused.settlement ≠ .failed (.invariantViolated why)) ∧
        ∀ key, refused.settlement ≠ .failed (.stateConflict key) := by
  have answered : (.deploy request, refused) ∈ (Ledger.new {} {}).reports steps :=
    List.mem_cons_self
  have rejected : refused.settlement.error? =
      some (.state (.commitRejected "store is refusing commits")) := by decide +kernel
  exact ⟨answered, rejected, Ledger.defences_unmet (Ledger.new {} {}) steps answered⟩

end Retry

end LedgerScript
