import LedgerScript.Proofs.Ledger.Atomicity
import LedgerScript.Proofs.Machine.CallTree

/-!
# Whose keys a call changes

A call changes keys of the contract that it is for and of contracts that this
one reaches through calls that all returned a truthy value, and no key that the
host has reserved but the code record of a deploy.  Main statement:
`writes_isolated`.
-/

namespace LedgerScript

namespace Entry

/-- The calls that the entry point makes, as the `CallTree` of each. -/
def calls (e : Entry) (l : Ledger) : List CallTree :=
  CallTree.ofRun l.surroundings e.contract e.context e.view (l.config.budget e.context.kind)
    l.config.checkInterval e.cache

variable {e : Entry} {l : Ledger} {key : StateKey} {op : WriteOp}

/-- A write that `run` leaves pending is in the namespace of the contract of the entry, or
of one that `CallTree.Reaches` finds in its `calls`, and its key is not reserved. -/
theorem writer_of_pending {v : Value} (returned : (e.run l).1.result = .ok v)
    (written : (e.run l).1.view.writes[key]? = some op) :
    key.space ∈ (e.run l).1.executed ∧
      (key.space = e.context.space ∨
        ∃ id, CallTree.Reaches (e.calls l) id ∧ key.space = id.space) ∧
      key.reserved = false := by
  obtain ⟨-, -, -, own, -⟩ := e.run_sound l
  have changed : (e.run l).1.view.writes[key]? ≠ e.view.writes[key]? := by
    rw [written]
    simp [view]
  exact ⟨(own key op written).1, execute_writers l.surroundings e.contract e.context e.view _ _ _
    returned changed, (own key op written).2⟩

end Entry

namespace Ledger

/-- **Contracts write only for themselves.**  Every key that `answer` changes in the store
lies in a namespace that `run` has executed: that of the contract that the call is for, or
of one that it reaches through nested calls that all returned a truthy value
(`CallTree.Reaches`).  The key is not `reserved`, unless it is the code record of a deploy
that succeeded. -/
theorem writes_isolated (l : Ledger) (r : Request) {key : StateKey}
    (changed : (l.answer r).2.store.entries[key]? ≠ l.store.entries[key]?) :
    ∃ e, l.opening r = .ok e ∧ key.space ∈ (e.run l).1.executed ∧
      (key.space = r.target.space ∨
        ∃ id, CallTree.Reaches (e.calls l) id ∧ key.space = id.space) ∧
      (key.reserved = true → key = StateKey.code r.target ∧ r.kind = .deploy ∧
        (l.answer r).1.settlement.success = true) := by
  cases h : l.opening r with
  | error refusal =>
    rw [answer_of_refused h] at changed
    exact absurd rfl changed
  | ok e =>
    obtain ⟨-, target, deploy, ready⟩ := opening_eq_ok h
    rw [answer_of_entered h] at changed ⊢
    rcases Entry.verdict_cases ready with ⟨-, same, -⟩ | ⟨success, flushed, -, v, returned, -⟩
    · exact absurd (congrArg (·.entries[key]?) same) changed
    · refine ⟨e, rfl, ?_⟩
      change (e.verdict l (e.run l).1).store.entries[key]? ≠ _ at changed
      rw [Access.entries_flush flushed, Committed.getElem?_overlay] at changed
      cases hw : (e.pending l)[key]? with
      | none =>
        rw [hw] at changed
        exact absurd rfl changed
      | some op =>
        rcases Entry.pending_cases hw with written | ⟨sourced, rfl⟩
        · obtain ⟨ran, reached, free⟩ := Entry.writer_of_pending returned written
          refine ⟨ran, ?_, fun reserved => ?_⟩
          · rw [← target, ← ready.space]
            exact reached
          · exact absurd (free.symm.trans reserved) Bool.false_ne_true
        · rw [target]
          have running := (e.run_sound l).2.2.1
          refine ⟨?_, .inl rfl, fun _ => ⟨rfl, deploy sourced, success⟩⟩
          rw [ready.space, target] at running
          exact running

end Ledger

namespace NestedWriter

/-- Writes under a key. -/
def writer : Contract := .specimen 1 [.result (some (.call "PutState" [.str "n", .int 2]))]

/-- Has another one write for itself. -/
def caller : Contract :=
  .specimen 0 [.result (some (.call "CallContract" [.str writer.id.hex, .str "count", .null]))]

/-- A ledger with both contracts at hand. -/
def ledger : Ledger where
  config := {}
  cache := { admission := {}, capacity := 2, held := [caller, writer] }
  store :=
    let record : List UInt8 := CodeRecord.bytes ⟨Script.languageName, ""⟩
    { entries := Std.ExtTreeMap.ofList
        [(StateKey.code caller.id, record), (StateKey.code writer.id, record)] }

/-- The invocation of the caller. -/
def request : Request := .invoke { contract := caller.id, method := "go", args := .null }

/-- The writer's key changes, and the caller has reached the writer. -/
theorem writes_of_callee :
    let key : StateKey := ⟨writer.id.space, "n"⟩
    (ledger.answer request).2.store.entries[key]? ≠ ledger.store.entries[key]? ∧
      ∃ e, ledger.opening request = .ok e ∧ key.space ∈ (e.run ledger).1.executed ∧
        (key.space = request.target.space ∨
          ∃ id, CallTree.Reaches (e.calls ledger) id ∧ key.space = id.space) ∧
        (key.reserved = true → key = StateKey.code request.target ∧ request.kind = .deploy ∧
          (ledger.answer request).1.settlement.success = true) := by
  intro key
  have changed : (ledger.answer request).2.store.entries[key]? ≠ ledger.store.entries[key]? := by
    decide +kernel
  exact ⟨changed, Ledger.writes_isolated ledger request changed⟩

end NestedWriter

end LedgerScript
