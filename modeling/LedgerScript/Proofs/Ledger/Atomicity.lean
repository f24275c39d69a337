import LedgerScript.Proofs.Ledger.Answer
import LedgerScript.Proofs.Machine.Conduct

/-!
# All or nothing

What an entry point leaves pending takes effect in one commit of the store, or
not at all.  Since contracts conduct themselves, a commit breaks no rule and
meets no conflict (`violations_candidate`, `holds_staged`), so it is only the
store that may still refuse it.  Main statement: `answer_commits_or_discards`.
-/

namespace LedgerScript

/-! ## Namespaces of writes -/

theorem mem_of_mem_eraseRepsBy_loop {α : Type} (r : α → α → Bool) {a b : α} {rest acc : List α}
    (h : b ∈ List.eraseRepsBy.loop r a rest acc) : b = a ∨ b ∈ rest ∨ b ∈ acc := by
  induction rest generalizing a acc with
  | nil =>
    rw [List.eraseRepsBy.loop, List.mem_reverse, List.mem_cons] at h
    exact h.imp_right .inr
  | cons c rest ih =>
    rw [List.eraseRepsBy.loop] at h
    split at h
    · rcases ih h with h | h | h
      · exact .inl h
      · exact .inr (.inl (List.mem_cons_of_mem c h))
      · exact .inr (.inr h)
    · rcases ih h with h | h | h
      · exact .inr (.inl (h ▸ List.mem_cons_self))
      · exact .inr (.inl (List.mem_cons_of_mem c h))
      · exact (List.mem_cons.1 h).imp_right .inr

theorem mem_of_mem_eraseReps {α : Type} [BEq α] {a : α} {l : List α} (h : a ∈ l.eraseReps) :
    a ∈ l := by
  cases l with
  | nil => exact h
  | cons b rest =>
    rcases mem_of_mem_eraseRepsBy_loop _ h with h | h | h
    · exact h ▸ List.mem_cons_self
    · exact List.mem_cons_of_mem b h
    · cases h

theorem WriteSet.exists_of_mem_spaces {w : WriteSet} {space : Namespace} (h : space ∈ w.spaces) :
    ∃ (key : StateKey) (op : WriteOp), w[key]? = some op ∧ key.space = space := by
  obtain ⟨key, mem, same⟩ := List.mem_map.1 (mem_of_mem_eraseReps h)
  rw [Std.ExtTreeMap.mem_keys, Std.ExtTreeMap.mem_iff_isSome_getElem?] at mem
  obtain ⟨op, written⟩ := Option.isSome_iff_exists.1 mem
  exact ⟨key, op, written, same⟩

/-- Writes of contracts that have run, of a call that may write and kept within its depth,
break no rule: there are no `violations`. -/
theorem Candidate.violations_eq_nil {c : Candidate} (writable : c.kind.readOnly = false)
    (succeeded : c.succeeded = true)
    (own : ∀ (key : StateKey) (op : WriteOp), c.writes[key]? = some op → key.space ∈ c.executed)
    (depth : c.depth ≤ c.maxDepth) : c.violations = [] := by
  have noForeign : c.foreignSpaces = [] := by
    unfold foreignSpaces
    rw [List.filter_eq_nil_iff]
    intro space mem
    obtain ⟨key, op, written, rfl⟩ := WriteSet.exists_of_mem_spaces mem
    have ran := own key op written
    rw [← Std.ExtTreeSet.contains_iff_mem] at ran
    rw [ran]
    exact Bool.false_ne_true
  unfold violations
  rw [writable, succeeded, noForeign, if_pos depth]
  rfl

/-! ## Entries -/

namespace Entry

/-- The writes that take effect if the `verdict` is to commit: those that were pending
when the entry point returned, and for a deploy the `CodeRecord`. -/
def pending (e : Entry) (l : Ledger) : WriteSet :=
  match e.source with
  | none => (e.run l).1.view.writes
  | some source =>
    (e.run l).1.view.writes.insert (StateKey.code e.context.contract)
      (.put (CodeRecord.bytes ⟨Script.languageName, source⟩))

/-- `run` has returned a value that is `Value.truthy`. -/
def ReturnsTruthy (e : Entry) (l : Ledger) : Prop :=
  ∃ v, (e.run l).1.result = .ok v ∧ v.truthy = true

variable {e : Entry} {l : Ledger}

/-- The outcome of `run` is as `execute_sound` has it. -/
theorem run_sound (e : Entry) (l : Ledger) :
    (e.run l).1.view.readOnly = e.context.kind.readOnly ∧
      (e.run l).1.view.reads.Holds l.store.entries ∧
      e.context.space ∈ (e.run l).1.executed ∧
      (∀ (key : StateKey) (op : WriteOp), (e.run l).1.view.writes[key]? = some op →
        key.space ∈ (e.run l).1.executed ∧ key.reserved = false) ∧
      (e.run l).1.usage.depth ≤ (l.config.budget e.context.kind).maxDepth :=
  execute_sound l.surroundings e.contract e.context e.context.kind.readOnly
    (l.config.budget e.context.kind) l.config.checkInterval e.cache

theorem writes_staged (e : Entry) (l : Ledger) : (e.staged (e.run l).1).writes = e.pending l := by
  unfold staged pending
  cases e.source <;> rfl

/-- A write in `pending` was left by the entry point, or is the code record of a deploy. -/
theorem pending_cases {key : StateKey} {op : WriteOp} (h : (e.pending l)[key]? = some op) :
    (e.run l).1.view.writes[key]? = some op ∨
      e.source.isSome = true ∧ key = StateKey.code e.context.contract := by
  unfold pending at h
  cases hs : e.source with
  | none =>
    rw [hs] at h
    exact .inl h
  | some source =>
    rw [hs] at h
    dsimp only at h
    rw [Std.ExtTreeMap.getElem?_insert] at h
    split at h
    · rename_i same
      exact .inr ⟨rfl, (Std.compare_eq_iff_eq.1 same).symm⟩
    · exact .inl h

theorem readOnly_staged (e : Entry) (l : Ledger) :
    (e.staged (e.run l).1).readOnly = e.context.kind.readOnly := by
  unfold staged
  cases e.source <;> exact (e.run_sound l).1

/-- The reads of the `staged` view hold over the store: what the entry point has seen, and
that a deploy finds no code record. -/
theorem holds_staged (ready : e.Ready l) :
    (e.staged (e.run l).1).reads.Holds l.store.entries := by
  obtain ⟨-, holds, -⟩ := e.run_sound l
  unfold staged
  cases hs : e.source with
  | none => exact holds
  | some source =>
    have recorded := holds.record (StateKey.code e.context.contract)
    rwa [ready.unrecorded (by rw [hs]; rfl)] at recorded

theorem violations_candidate (ready : e.Ready l) (writable : e.context.kind.readOnly = false) :
    (e.candidate l (e.run l).1).violations = [] := by
  obtain ⟨-, -, running, writes, depth⟩ := e.run_sound l
  refine Candidate.violations_eq_nil writable rfl (fun key op written => ?_) depth
  change (e.staged (e.run l).1).writes[key]? = some op at written
  rw [writes_staged] at written
  rcases pending_cases written with written | ⟨-, rfl⟩
  · exact (writes key op written).1
  · rw [ready.space] at running
    exact running

/-- The `verdict` on a call that is to write nothing, or does not `ReturnsTruthy`, drops
its writes. -/
theorem verdict_of_dropped (h : e.context.kind.readOnly = true ∨ ¬ e.ReturnsTruthy l) :
    (e.verdict l (e.run l).1).settlement.success = false ∧
      (e.verdict l (e.run l).1).store = l.store := by
  unfold verdict
  cases hr : (e.run l).1.result with
  | error f => exact ⟨rfl, rfl⟩
  | ok v =>
    have dropped : (e.context.kind.readOnly || !v.truthy) = true := by
      rw [Bool.or_eq_true, Bool.not_eq_true']
      refine h.imp_right fun h => Bool.eq_false_iff.2 fun truthy => h ⟨v, hr, truthy⟩
    dsimp only
    rw [if_pos dropped]
    exact ⟨rfl, rfl⟩

/-- The `verdict` on any other call is what `Access.flush` makes of the `pending` writes. -/
theorem verdict_of_returned (writable : e.context.kind.readOnly = false) (ready : e.Ready l)
    {v : Value} (returned : (e.run l).1.result = .ok v) (truthy : v.truthy = true) :
    e.verdict l (e.run l).1 =
      match Access.flush l.store (e.pending l) with
      | .ok after => ⟨.committed v, after, [.committing]⟩
      | .error f => ⟨.failed (.state f), l.store, [.committing, .discarding]⟩ := by
  have kept : ¬ (e.context.kind.readOnly || !v.truthy) = true := by
    rw [writable, truthy]
    exact Bool.false_ne_true
  have committed := Access.commit_of_holds ((e.readOnly_staged l).trans writable)
    (e.holds_staged ready)
  rw [writes_staged] at committed
  unfold verdict
  rw [returned]
  dsimp only
  rw [if_neg kept, violations_candidate ready writable, committed]
  cases Access.flush l.store (e.pending l) <;> rfl

/-- A `verdict` either drops everything, because the call is to write nothing, its entry
point has not returned a truthy value or the store refuses, or makes all that is `pending`
take effect. -/
theorem verdict_cases (ready : e.Ready l) :
    (e.verdict l (e.run l).1).settlement.success = false ∧
        (e.verdict l (e.run l).1).store = l.store ∧
        ¬ (e.context.kind.readOnly = false ∧ e.ReturnsTruthy l ∧
          ∃ after, Access.flush l.store (e.pending l) = .ok after) ∨
      (e.verdict l (e.run l).1).settlement.success = true ∧
        Access.flush l.store (e.pending l) = .ok (e.verdict l (e.run l).1).store ∧
        e.context.kind.readOnly = false ∧ e.ReturnsTruthy l := by
  by_cases taken : e.context.kind.readOnly = false ∧ e.ReturnsTruthy l
  · obtain ⟨writable, v, returned, truthy⟩ := taken
    rw [verdict_of_returned writable ready returned truthy]
    cases hf : Access.flush l.store (e.pending l) with
    | ok after => exact .inr ⟨rfl, rfl, writable, v, returned, truthy⟩
    | error f =>
      refine .inl ⟨rfl, rfl, fun ⟨_, _, after, flushed⟩ => ?_⟩
      cases flushed
  · have dropped : e.context.kind.readOnly = true ∨ ¬ e.ReturnsTruthy l := by
      cases hk : e.context.kind.readOnly with
      | true => exact .inl rfl
      | false => exact .inr fun returned => taken ⟨hk, returned⟩
    obtain ⟨failed, same⟩ := verdict_of_dropped dropped
    exact .inl ⟨failed, same, fun ⟨writable, returned, _⟩ => taken ⟨writable, returned⟩⟩

/-- A `verdict` is a failure only if the `run` has failed or `Access.flush` refuses what
is `pending`. -/
theorem error_of_verdict (ready : e.Ready l) {f : ContractError}
    (failed : (e.verdict l (e.run l).1).settlement = .failed f) :
    (e.run l).1.result = .error f ∨
      ∃ g, Access.flush l.store (e.pending l) = .error g ∧ f = .state g := by
  cases returned : (e.run l).1.result with
  | error g =>
    unfold verdict at failed
    rw [returned] at failed
    cases failed
    exact .inl rfl
  | ok v =>
    by_cases dropped : (e.context.kind.readOnly || !v.truthy) = true
    · unfold verdict at failed
      rw [returned] at failed
      dsimp only at failed
      rw [if_pos dropped] at failed
      cases failed
    · rw [Bool.or_eq_true, not_or, Bool.not_eq_true, Bool.not_eq_true', Bool.not_eq_false]
        at dropped
      rw [verdict_of_returned dropped.1 ready returned dropped.2] at failed
      cases flushed : Access.flush l.store (e.pending l) with
      | ok after =>
        rw [flushed] at failed
        cases failed
      | error g =>
        rw [flushed] at failed
        cases failed
        exact .inr ⟨g, rfl, rfl⟩

end Entry

/-! ## Calls -/

namespace Ledger

/-- **A call takes effect as a whole or not at all.**  `answer` reports a success exactly
when the request is no query, `opening` gives an entry that `ReturnsTruthy`, and `pending`
is empty or `Store.commit` accepts it.  After a success the store has taken `pending` in
one commit: each key holds what `pending` leaves in it, and what it held before if
`pending` does not touch it.  After any other call, the store is what it was. -/
theorem answer_commits_or_discards (l : Ledger) (r : Request) :
    let (report, after) := l.answer r
    (report.settlement.success = true ↔
        r.kind ≠ .query ∧ ∃ e, l.opening r = .ok e ∧ e.ReturnsTruthy l ∧
          (e.pending l = ∅ ∨ ∃ store, l.store.commit (e.pending l) = .ok store)) ∧
      (r.kind = .query ∨ report.settlement.success = false → after.store = l.store) ∧
      (report.settlement.success = true → ∃ e, l.opening r = .ok e ∧
        (e.pending l = ∅ ∧ after.store = l.store ∨
          l.store.commit (e.pending l) = .ok after.store) ∧
        ∀ key : StateKey, after.store.entries[key]? =
          match (e.pending l)[key]? with
          | some (.put bytes) => some bytes
          | some .delete => none
          | none => l.store.entries[key]?) := by
  cases h : l.opening r with
  | error refusal =>
    rw [answer_of_refused h]
    refine ⟨⟨fun success => ?_, fun ⟨_, e, opened, _⟩ => ?_⟩, fun _ => rfl, fun success => ?_⟩
    · cases success
    · cases opened
    · cases success
  | ok e =>
    obtain ⟨kind, -, -, ready⟩ := opening_eq_ok h
    have writes : r.kind ≠ .query ↔ e.context.kind.readOnly = false := by
      rw [kind]
      cases r.kind <;> decide
    rw [answer_of_entered h]
    dsimp only [answered]
    rw [writes]
    rcases Entry.verdict_cases ready with ⟨failed, same, unmet⟩ | ⟨success, flushed, met⟩
    · refine ⟨⟨fun success => ?_, fun ⟨writable, f, opened, returned, accepted⟩ => ?_⟩,
        fun _ => same, fun success => ?_⟩
      · exact absurd (failed.symm.trans success) Bool.false_ne_true
      · cases opened
        exact absurd ⟨writable, returned, Access.exists_flush_iff.2 accepted⟩ unmet
      · exact absurd (failed.symm.trans success) Bool.false_ne_true
    · refine ⟨⟨fun _ => ?_, fun _ => success⟩, fun dropped => ?_, fun _ => ?_⟩
      · exact ⟨met.1, e, rfl, met.2, Access.exists_flush_iff.1 ⟨_, flushed⟩⟩
      · rcases dropped with query | failed
        · exact absurd query (writes.2 met.1)
        · exact absurd (failed.symm.trans success) Bool.false_ne_true
      · refine ⟨e, rfl, Access.flush_cases flushed, fun key => ?_⟩
        rw [Access.entries_flush flushed, Committed.getElem?_overlay]
        cases (e.pending l)[key]? with
        | none => rfl
        | some op => cases op <;> rfl

end Ledger

end LedgerScript
