import LedgerScript.Proofs.State.PrivateCopy

/-!
# Room for writes

A view has room for a key that is pending already, and for others as long as fewer
keys are pending than the limit says (`View.Room`).  A write or a delete whose key
and value are acceptable is refused exactly where there is no room
(`answer_of_room`, `answer_of_full`), so no operation leaves more keys pending than
there may be (`Roomy.act`).  Main statement: `write_limit_exact`.
-/

namespace LedgerScript

/-- There is room for a pending change of `key`: it is pending already, or fewer keys than
`maxWrites` are. -/
def View.Room (view : View) (limits : StateLimits) (key : StateKey) : Prop :=
  key ∈ view.writes ∨ view.writes.size < limits.maxWrites.toNat

/-- One more pending change. -/
def View.change (view : View) (key : StateKey) (op : WriteOp) : View :=
  { view with writes := view.writes.insert key op }

/-- Where there is `Room`, `change` leaves no more keys pending than there may be. -/
theorem View.Room.size_change_le {view : View} {limits : StateLimits} {key : StateKey}
    (room : view.Room limits key) (bound : view.writes.size ≤ limits.maxWrites.toNat)
    (op : WriteOp) : (view.change key op).writes.size ≤ limits.maxWrites.toNat := by
  unfold change
  rw [Std.ExtTreeMap.size_insert]
  split
  · exact bound
  · rename_i absent
    rcases room with pending | few
    · exact absurd pending absent
    · exact few

/-- What is answered where there is no room. -/
def StateLimits.full (limits : StateLimits) (pending : Nat) : ContractError :=
  .exhausted .stateWrites (UInt64.ofNat (pending + 1)) limits.maxWrites

/-! ## Accesses -/

namespace Access

variable {limits : StateLimits} {own : Namespace} {raw : String} {view : View} {key : StateKey}

theorem checkWriteCount_of_room (room : view.Room limits key) :
    checkWriteCount limits key view = .ok () view := by
  unfold checkWriteCount
  rcases room with pending | few
  · exact if_pos (Std.ExtTreeMap.contains_iff_mem.2 pending)
  · simp [few]

theorem checkWriteCount_of_full (full : ¬ view.Room limits key) :
    checkWriteCount limits key view = .error (limits.full view.writes.size) view := by
  unfold View.Room at full
  rw [not_or] at full
  unfold checkWriteCount
  rw [if_neg fun held => full.1 (Std.ExtTreeMap.contains_iff_mem.1 held), if_neg full.2]
  rfl

section Acceptable

variable (resolved : resolveKey own raw limits.maxKeyLength.toNat = .ok key)
include resolved

theorem delete_of_room (room : view.Room limits key) :
    delete limits own raw view = .ok () (view.change key .delete) := by
  unfold delete
  rw [resolved, bind_of_ok (x := Viewing.ofExcept (.ok key)) rfl,
    bind_of_ok (checkWriteCount_of_room room)]
  rfl

theorem delete_of_full (full : ¬ view.Room limits key) :
    delete limits own raw view = .error (limits.full view.writes.size) view := by
  unfold delete
  rw [resolved, bind_of_ok (x := Viewing.ofExcept (.ok key)) rfl,
    bind_of_error (checkWriteCount_of_full full)]

variable {v : Value} {bytes : List UInt8}
  (encoded : encodeValue v limits.maxValueSize.toNat = .ok bytes)
include encoded

theorem set_of_room (room : view.Room limits key) :
    set limits own raw v view = .ok bytes.length (view.change key (.put bytes)) := by
  unfold set
  rw [resolved, bind_of_ok (x := Viewing.ofExcept (.ok key)) rfl, encoded,
    bind_of_ok (x := Viewing.ofExcept (Except.mapError .script (.ok bytes))) rfl,
    bind_of_ok (checkWriteCount_of_room room)]
  rfl

theorem set_of_full (full : ¬ view.Room limits key) :
    set limits own raw v view = .error (limits.full view.writes.size) view := by
  unfold set
  rw [resolved, bind_of_ok (x := Viewing.ofExcept (.ok key)) rfl, encoded,
    bind_of_ok (x := Viewing.ofExcept (Except.mapError .script (.ok bytes))) rfl,
    bind_of_error (checkWriteCount_of_full full)]

end Acceptable

theorem writes_get (entries : Committed) (limits : StateLimits) (own : Namespace) (raw : String)
    (view : View) : ((get entries limits own raw).reply .value view).2.writes = view.writes := by
  cases resolved : resolveKey own raw limits.maxKeyLength.toNat with
  | error e => rw [Viewing.reply_of_error (get_of_error resolved)]
  | ok key => rw [reply_get_of_ok resolved, View.writes_look]

end Access

/-! ## Operations -/

namespace DraftOp

/-- The operation is a write or a delete. -/
def Writes : DraftOp → Prop
  | set _ _ _ | delete _ _ => True
  | _ => False

/-- The change that an operation asks for, if its key and its value are acceptable. -/
def change? (limits : StateLimits) : DraftOp → Option (StateKey × WriteOp)
  | set own raw v =>
    match resolveKey own raw limits.maxKeyLength.toNat,
      encodeValue v limits.maxValueSize.toNat with
    | .ok key, .ok bytes => some (key, .put bytes)
    | _, _ => none
  | delete own raw =>
    match resolveKey own raw limits.maxKeyLength.toNat with
    | .ok key => some (key, .delete)
    | .error _ => none
  | _ => none

variable {limits : StateLimits} {key : StateKey} {w : WriteOp}

/-- An operation with a `change?` is a write of a value that is accepted, or a delete. -/
theorem change?_cases {op : DraftOp} (asked : op.change? limits = some (key, w)) :
    (∃ own raw v bytes, op = set own raw v ∧ w = .put bytes ∧
        resolveKey own raw limits.maxKeyLength.toNat = .ok key ∧
        encodeValue v limits.maxValueSize.toNat = .ok bytes) ∨
      ∃ own raw, op = delete own raw ∧ w = .delete ∧
        resolveKey own raw limits.maxKeyLength.toNat = .ok key := by
  cases op with
  | set own raw v =>
    dsimp only [change?] at asked
    split at asked
    · rename_i bytes resolved encoded
      cases asked
      exact .inl ⟨own, raw, v, bytes, rfl, rfl, resolved, encoded⟩
    · cases asked
  | delete own raw =>
    dsimp only [change?] at asked
    split at asked
    · rename_i resolved
      cases asked
      exact .inr ⟨own, raw, rfl, rfl, resolved⟩
    · cases asked
  | _ => cases asked

end DraftOp

namespace Draft

variable {limits : StateLimits} {d : Draft} {op : DraftOp} {key : StateKey} {w : WriteOp}
  (entries : Committed)

/-- Where there is `Room`, an acceptable change is pending afterwards. -/
theorem answer_of_room (asked : op.change? limits = some (key, w))
    (room : d.view.Room limits key) :
    (∀ e, (d.answer entries limits op).1 ≠ .failed e) ∧
      (d.answer entries limits op).2 = d.view.change key w := by
  rcases DraftOp.change?_cases asked with
    ⟨own, raw, v, bytes, rfl, rfl, resolved, encoded⟩ | ⟨own, raw, rfl, rfl, resolved⟩
  · have done : d.answer entries limits (.set own raw v) = (.size bytes.length, _) :=
      Viewing.reply_of_ok (Access.set_of_room resolved encoded room) .size
    rw [done]
    exact ⟨fun _ failed => (by cases failed), rfl⟩
  · have done : d.answer entries limits (.delete own raw) = (.done, _) :=
      Viewing.reply_of_ok (Access.delete_of_room resolved room) fun _ => .done
    rw [done]
    exact ⟨fun _ failed => (by cases failed), rfl⟩

/-- Where there is no `Room`, an acceptable change is refused with `full`, and the view
stays as it is. -/
theorem answer_of_full (asked : op.change? limits = some (key, w))
    (full : ¬ d.view.Room limits key) :
    d.answer entries limits op = (.failed (limits.full d.view.writes.size), d.view) := by
  rcases DraftOp.change?_cases asked with
    ⟨own, raw, v, bytes, rfl, rfl, resolved, encoded⟩ | ⟨own, raw, rfl, rfl, resolved⟩
  · exact Viewing.reply_of_error (Access.set_of_full resolved encoded full) .size
  · exact Viewing.reply_of_error (Access.delete_of_full resolved full) fun _ => .done

/-- A write or a delete whose key or value is not acceptable is refused, and the view
stays as it is. -/
theorem answer_of_unacceptable (writes : op.Writes) (refused : op.change? limits = none) :
    ∃ e, d.answer entries limits op = (.failed e, d.view) := by
  cases op with
  | set own raw v =>
    rcases Access.set_cases limits own raw v d.view with ⟨e, failed⟩ | ⟨_, _, -, -, done⟩
    · exact ⟨e, Viewing.reply_of_error failed .size⟩
    · obtain ⟨key, bytes, resolved, encoded, -⟩ := Access.set_eq_ok done
      simp [DraftOp.change?, resolved, encoded] at refused
  | delete own raw =>
    rcases Access.delete_cases limits own raw d.view with ⟨e, failed⟩ | ⟨_, -, -, done⟩
    · exact ⟨e, Viewing.reply_of_error failed fun _ => .done⟩
    · obtain ⟨key, resolved, -⟩ := Access.delete_eq_ok done
      simp [DraftOp.change?, resolved] at refused
  | _ => cases writes

/-- A write or a delete that fails has no effect. -/
theorem view_of_failed (writes : op.Writes) {e : ContractError}
    (failed : (d.answer entries limits op).1 = .failed e) :
    (d.answer entries limits op).2 = d.view := by
  cases asked : op.change? limits with
  | none =>
    obtain ⟨f, refused⟩ := answer_of_unacceptable (d := d) entries writes asked
    rw [refused]
  | some change =>
    by_cases room : d.view.Room limits change.1
    · exact absurd failed ((answer_of_room entries asked room).1 e)
    · rw [answer_of_full entries asked room]

/-! ## Runs -/

/-- A view that has just been opened. -/
def opened (readOnly : Bool) : Draft := { view := { readOnly := readOnly } }

/-- Operations, each over committed state as it stands at that moment. -/
def through (limits : StateLimits) (d : Draft) (moments : List (Committed × DraftOp)) : Draft :=
  moments.foldl (fun d (entries, op) => d.act entries limits op) d

/-- No more keys are pending than there may be, now and at every checkpoint. -/
structure Roomy (limits : StateLimits) (d : Draft) : Prop where
  now : d.view.writes.size ≤ limits.maxWrites.toNat
  saved : ∀ writes ∈ d.checkpoints, writes.size ≤ limits.maxWrites.toNat

theorem roomy_opened (readOnly : Bool) : (opened readOnly).Roomy limits where
  now := by
    change Std.ExtTreeMap.size (∅ : WriteSet) ≤ _
    rw [Std.ExtTreeMap.size_empty]
    exact Nat.zero_le _
  saved := fun _ mem => by cases mem

/-- Where a change is refused nothing is added, and elsewhere there was room for it. -/
theorem Roomy.size_write_le (h : d.Roomy limits) (writes : op.Writes) :
    (d.answer entries limits op).2.writes.size ≤ limits.maxWrites.toNat := by
  cases asked : op.change? limits with
  | none =>
    obtain ⟨e, refused⟩ := answer_of_unacceptable (d := d) entries writes asked
    rw [refused]
    exact h.now
  | some change =>
    by_cases room : d.view.Room limits change.1
    · rw [(answer_of_room entries asked room).2]
      exact room.size_change_le h.now change.2
    · rw [answer_of_full entries asked room]
      exact h.now

theorem Roomy.size_answer_le (h : d.Roomy limits) (op : DraftOp) :
    (d.answer entries limits op).2.writes.size ≤ limits.maxWrites.toNat := by
  cases op with
  | get own raw =>
    have same : (d.answer entries limits (.get own raw)).2.writes = d.view.writes :=
      Access.writes_get entries limits own raw d.view
    rw [same]
    exact h.now
  | set own raw v => exact h.size_write_le entries trivial
  | delete own raw => exact h.size_write_le entries trivial
  | checkpoint => exact h.now
  | rollback number =>
    unfold answer
    dsimp only
    cases marked : d.checkpoints[number]? with
    | none => exact h.now
    | some writes => exact h.saved writes (List.mem_of_getElem? marked)

theorem marks_reply {α : Type} (x : Viewing α) (view : View) {f : α → ViewReply}
    (plain : ∀ a, marks (f a) = []) : marks (x.reply f view).1 = [] := by
  unfold Viewing.reply
  cases x view with
  | ok a next => exact plain a
  | error e next => rfl

/-- The only checkpoint that is handed out is of what is pending. -/
theorem marks_answer (d : Draft) (limits : StateLimits) (op : DraftOp) :
    ∀ writes ∈ marks (d.answer entries limits op).1, writes = d.view.writes := by
  intro writes mem
  cases op with
  | get own raw =>
    have none := marks_reply (Access.get entries limits own raw) d.view (f := .value) fun _ => rfl
    exact absurd (none ▸ mem) List.not_mem_nil
  | set own raw v =>
    have none := marks_reply (Access.set limits own raw v) d.view (f := .size) fun _ => rfl
    exact absurd (none ▸ mem) List.not_mem_nil
  | delete own raw =>
    have none :=
      marks_reply (Access.delete limits own raw) d.view (f := fun _ => .done) fun _ => rfl
    exact absurd (none ▸ mem) List.not_mem_nil
  | checkpoint => exact List.mem_singleton.1 mem
  | rollback number =>
    unfold answer at mem
    dsimp only at mem
    cases marked : d.checkpoints[number]? <;> rw [marked] at mem <;> cases mem

/-- A draft stays `Roomy` with one more operation. -/
theorem Roomy.act (h : d.Roomy limits) (op : DraftOp) :
    (d.act entries limits op).Roomy limits where
  now := h.size_answer_le entries op
  saved := by
    intro writes mem
    rcases List.mem_append.1 mem with old | new
    · exact h.saved writes old
    · rw [marks_answer entries d limits op writes new]
      exact h.now

/-- A draft stays `Roomy` along a run of operations. -/
theorem Roomy.through (h : d.Roomy limits) (moments : List (Committed × DraftOp)) :
    (d.through limits moments).Roomy limits := by
  induction moments generalizing d with
  | nil => exact h
  | cons moment rest ih => exact ih (h.act moment.1 moment.2)

/-- **The limit on writes is exact, and a write that fails has no effect.**  Whatever was
done `through` a view that was fresh, over committed state that may have changed under it:
no more keys are pending than `maxWrites`.  A write or a delete that fails leaves the view
as it is.  One whose key and value are acceptable fails with `exhausted .stateWrites`
exactly if its key is not pending and `maxWrites` keys are, and `used` is then one more
than are pending; any other is pending afterwards. -/
theorem write_limit_exact (limits : StateLimits) (readOnly : Bool)
    (moments : List (Committed × DraftOp)) :
    let d := (opened readOnly).through limits moments
    let pending := d.view.writes.size
    pending ≤ limits.maxWrites.toNat ∧
      ∀ (entries : Committed) (op : DraftOp), op.Writes →
        let reply := (d.answer entries limits op).1
        let view := (d.answer entries limits op).2
        (∀ e, reply = .failed e → view = d.view) ∧
          ∀ key w, op.change? limits = some (key, w) →
            ((∃ used limit, reply = .failed (.exhausted .stateWrites used limit)) ↔
                key ∉ d.view.writes ∧ limits.maxWrites.toNat ≤ pending) ∧
              (∀ used limit, reply = .failed (.exhausted .stateWrites used limit) →
                limit = limits.maxWrites ∧ used = UInt64.ofNat (pending + 1)) ∧
              (key ∈ d.view.writes ∨ pending < limits.maxWrites.toNat →
                view = d.view.change key w) := by
  intro d pending
  have roomy : d.Roomy limits := (roomy_opened readOnly).through moments
  refine ⟨roomy.now, ?_⟩
  intro entries op writes reply view
  refine ⟨fun e => view_of_failed entries writes, ?_⟩
  intro key w asked
  by_cases room : d.view.Room limits key
  · obtain ⟨answered, change⟩ := answer_of_room entries asked room
    refine ⟨⟨?_, ?_⟩, ?_, fun _ => change⟩
    · rintro ⟨used, limit, failed⟩
      exact absurd failed (answered _)
    · rintro ⟨absent, full⟩
      rcases room with pending | few
      · exact absurd pending absent
      · exact absurd few (Nat.not_lt.2 full)
    · intro used limit failed
      exact absurd failed (answered _)
  · have refused : reply = .failed (limits.full pending) :=
      congrArg Prod.fst (answer_of_full entries asked room)
    rw [refused]
    refine ⟨⟨fun _ => ?_, fun _ => ⟨_, _, rfl⟩⟩, ?_, fun free => absurd free room⟩
    · unfold View.Room at room
      rw [not_or, Nat.not_lt] at room
      exact room
    · intro used limit failed
      cases failed
      exact ⟨rfl, rfl⟩

end Draft

end LedgerScript
