import LedgerScript.Proofs.State.Serializability

/-!
# A copy of the state for oneself

A view that is used while nobody else writes behaves like a copy of committed
state that is changed at once: a checkpoint puts the copy aside, and a rollback
takes it up again (`PrivateCopy`).  Pending writes in effect are the copy, now and
at every checkpoint (`Draft.Mirrors`).  Main statement: `view_mirrors_copy`.
-/

namespace LedgerScript

/-! ## Drafts -/

/-- What is done through a view whose checkpoints are known by their numbers. -/
inductive DraftOp where
  | get (own : Namespace) (raw : String)
  | set (own : Namespace) (raw : String) (v : Value)
  | delete (own : Namespace) (raw : String)
  | checkpoint
  /-- Comes back to a checkpoint, which stays for later use. -/
  | rollback (number : Nat)

/-- A view with its checkpoints, the earliest first, and with all that was done
and answered. -/
structure Draft where
  view : View := {}
  checkpoints : List WriteSet := []
  log : List (DraftOp × ViewReply) := []

namespace Draft

/-- What an operation answers, and the view that it leaves; a checkpoint that was
never made cannot be come back to. -/
def answer (entries : Committed) (limits : StateLimits) (d : Draft) : DraftOp → ViewReply × View
  | .get own raw => ViewOp.run entries limits (.get own raw) d.view
  | .set own raw v => ViewOp.run entries limits (.set own raw v) d.view
  | .delete own raw => ViewOp.run entries limits (.delete own raw) d.view
  | .checkpoint => ViewOp.run entries limits .checkpoint d.view
  | .rollback number =>
    match d.checkpoints[number]? with
    | some writes => ViewOp.run entries limits (.rollback writes) d.view
    | none => (.done, d.view)

/-- The checkpoint that an answer hands out. -/
def marks : ViewReply → List WriteSet
  | .saved writes => [writes]
  | _ => []

def act (entries : Committed) (limits : StateLimits) (d : Draft) (op : DraftOp) : Draft :=
  let (reply, view) := d.answer entries limits op
  ⟨view, d.checkpoints ++ marks reply, d.log ++ [(op, reply)]⟩

/-- Operations on a fresh writable view, over committed state that stays as it is. -/
def run (entries : Committed) (limits : StateLimits) (ops : List DraftOp) : Draft :=
  ops.foldl (act entries limits) {}

end Draft

/-! ## Copies -/

/-- A copy of committed state, and the copies that were put aside. -/
structure PrivateCopy where
  entries : Committed
  saved : List Committed := []

namespace PrivateCopy

/-- The value of a script's key in the copy, or why there is none. -/
def get (c : PrivateCopy) (limits : StateLimits) (own : Namespace) (raw : String) : ViewReply :=
  match resolveKey own raw limits.maxKeyLength.toNat with
  | .error e => .failed e
  | .ok key =>
    match c.entries[key]? with
    | none => .value .null
    | some bytes =>
      match decodeValue key bytes with
      | .ok v => .value v
      | .error e => .failed e

/-- Does to the copy what the operation did, as far as the reply says that it was not
refused. -/
def follow (limits : StateLimits) (c : PrivateCopy) : DraftOp × ViewReply → PrivateCopy
  | (.set own raw v, .size _) =>
    match resolveKey own raw limits.maxKeyLength.toNat,
      encodeValue v limits.maxValueSize.toNat with
    | .ok key, .ok bytes => { c with entries := c.entries.insert key bytes }
    | _, _ => c
  | (.delete own raw, .done) =>
    match resolveKey own raw limits.maxKeyLength.toNat with
    | .ok key => { c with entries := c.entries.erase key }
    | .error _ => c
  | (.checkpoint, _) => { c with saved := c.saved ++ [c.entries] }
  | (.rollback number, _) => { c with entries := c.saved[number]?.getD c.entries }
  | _ => c

def after (c : PrivateCopy) (limits : StateLimits) (log : List (DraftOp × ViewReply)) :
    PrivateCopy :=
  log.foldl (follow limits) c

theorem after_concat (c : PrivateCopy) (limits : StateLimits) (log : List (DraftOp × ViewReply))
    (entry : DraftOp × ViewReply) :
    c.after limits (log ++ [entry]) = (c.after limits log).follow limits entry := by
  unfold after
  rw [List.foldl_append]
  rfl

end PrivateCopy

/-! ## Accesses -/

namespace Access

variable {limits : StateLimits} {own : Namespace} {raw : String} {view next : View}

/-- `set` that is not refused leaves the stored form pending under the key. -/
theorem set_eq_ok {v : Value} {n : Nat} (h : set limits own raw v view = .ok n next) :
    ∃ key bytes, resolveKey own raw limits.maxKeyLength.toNat = .ok key ∧
      encodeValue v limits.maxValueSize.toNat = .ok bytes ∧ next = view.put key bytes := by
  unfold set at h
  cases resolved : resolveKey own raw limits.maxKeyLength.toNat with
  | error e =>
    rw [resolved] at h
    cases h
  | ok key =>
    rw [resolved, bind_of_ok (x := Viewing.ofExcept (.ok key)) rfl] at h
    cases encoded : encodeValue v limits.maxValueSize.toNat with
    | error f =>
      rw [encoded] at h
      cases h
    | ok bytes =>
      rw [encoded, bind_of_ok (x := Viewing.ofExcept (Except.mapError .script (.ok bytes))) rfl]
        at h
      rcases checkWriteCount_cases limits key view with room | ⟨e, full⟩
      · rw [bind_of_ok room] at h
        cases h
        exact ⟨key, bytes, rfl, rfl, rfl⟩
      · rw [bind_of_error full] at h
        cases h

/-- `delete` that is not refused is pending under the key. -/
theorem delete_eq_ok (h : delete limits own raw view = .ok () next) :
    ∃ key, resolveKey own raw limits.maxKeyLength.toNat = .ok key ∧ next = view.delete key := by
  unfold delete at h
  cases resolved : resolveKey own raw limits.maxKeyLength.toNat with
  | error e =>
    rw [resolved] at h
    cases h
  | ok key =>
    rw [resolved, bind_of_ok (x := Viewing.ofExcept (.ok key)) rfl] at h
    rcases checkWriteCount_cases limits key view with room | ⟨e, full⟩
    · rw [bind_of_ok room] at h
      cases h
      exact ⟨key, rfl, rfl⟩
    · rw [bind_of_error full] at h
      cases h

end Access

theorem Viewing.reply_of_ok {α : Type} {x : Viewing α} {view next : View} {a : α}
    (h : x view = .ok a next) (f : α → ViewReply) : x.reply f view = (f a, next) := by
  unfold reply
  rw [h]

theorem Viewing.reply_of_error {α : Type} {x : Viewing α} {view next : View} {e : ContractError}
    (h : x view = .error e next) (f : α → ViewReply) : x.reply f view = (.failed e, next) := by
  unfold reply
  rw [h]

/-! ## The copy and the view -/

namespace Draft

/-- `Mirrors entries v checkpoints c`: the copy `c` is `entries` with the pending writes
of `v` in effect, and so are the copies that were put aside for the checkpoints. -/
structure Mirrors (entries : Committed) (v : View) (checkpoints : List WriteSet)
    (c : PrivateCopy) : Prop where
  writable : v.readOnly = false
  reads : v.reads.Holds entries
  now : c.entries = entries.overlay v.writes
  saved : c.saved = checkpoints.map entries.overlay

/-- The copy mirrors a draft as it stands. -/
abbrev Mirrored (entries : Committed) (d : Draft) (c : PrivateCopy) : Prop :=
  Mirrors entries d.view d.checkpoints c

section Mirrors

variable {entries : Committed} {v : View} {checkpoints : List WriteSet} {c : PrivateCopy}

theorem mirrors_new (entries : Committed) : Mirrors entries {} [] ⟨entries, []⟩ where
  writable := rfl
  reads := ReadSet.holds_empty entries
  now := (Committed.overlay_empty entries).symm
  saved := rfl

/-- `look` changes nothing but what has been seen, so the copy `Mirrors` the view still. -/
theorem Mirrors.look (h : Mirrors entries v checkpoints c) (key : StateKey) :
    Mirrors entries (v.look entries key) checkpoints c where
  writable := (View.readOnly_look ..).trans h.writable
  reads := h.reads.look key
  now := by rw [View.writes_look, h.now]
  saved := h.saved

/-- `Mirrors` when one more change is pending, and made to the copy. -/
theorem Mirrors.change (h : Mirrors entries v checkpoints c) (key : StateKey) (op : WriteOp) :
    Mirrors entries { v with writes := v.writes.insert key op } checkpoints
      { c with entries := c.entries.change key op } where
  writable := h.writable
  reads := h.reads
  now := by rw [h.now, Committed.overlay_insert]
  saved := h.saved

/-- `Mirrors` when a checkpoint puts the copy aside. -/
theorem Mirrors.checkpoint (h : Mirrors entries v checkpoints c) :
    Mirrors entries v (checkpoints ++ [v.writes]) { c with saved := c.saved ++ [c.entries] } where
  writable := h.writable
  reads := h.reads
  now := h.now
  saved := by rw [h.saved, h.now, List.map_append, List.map_singleton]

/-- `Mirrors` when a rollback takes up the copy that was put aside, if there is one. -/
theorem Mirrors.rollback (h : Mirrors entries v checkpoints c) (number : Nat) :
    Mirrors entries
      (match checkpoints[number]? with
        | some writes => v.rollback writes
        | none => v)
      checkpoints { c with entries := c.saved[number]?.getD c.entries } := by
  rw [h.saved, List.getElem?_map]
  cases checkpoints[number]? with
  | some writes => exact ⟨h.writable, h.reads, rfl, rfl⟩
  | none => exact ⟨h.writable, h.reads, h.now, rfl⟩

/-- `Mirrors` at an answer that is no checkpoint. -/
theorem Mirrors.plain (h : Mirrors entries v checkpoints c) {reply : ViewReply}
    (plain : marks reply = []) : Mirrors entries v (checkpoints ++ marks reply) c := by
  rw [plain, List.append_nil]
  exact h

end Mirrors

variable {entries : Committed} {limits : StateLimits} {d : Draft} {c : PrivateCopy}

/-! ### Operations -/

/-- `get` answers what the copy says, and leaves the copy as it is. -/
theorem Mirrors.get (h : Mirrored entries d c) (own : Namespace) (raw : String) :
    (d.answer entries limits (.get own raw)).1 = c.get limits own raw ∧
      Mirrored entries (d.act entries limits (.get own raw)) c := by
  have answered : d.answer entries limits (.get own raw) =
    (Access.get entries limits own raw).reply .value d.view := rfl
  unfold Draft.act PrivateCopy.get
  rw [answered]
  cases resolved : resolveKey own raw limits.maxKeyLength.toNat with
  | error e =>
    rw [Viewing.reply_of_error (Access.get_of_error resolved)]
    exact ⟨rfl, h.plain rfl⟩
  | ok key =>
    have got : Access.get entries limits own raw d.view =
        Viewing.ofExcept (Access.valueOf key c.entries[key]?) (d.view.look entries key) := by
      rw [Access.get_of_ok resolved, h.now, View.found_of_holds h.reads]
    dsimp only
    cases found : c.entries[key]? with
    | none =>
      rw [found] at got
      rw [Viewing.reply_of_ok got]
      exact ⟨rfl, (h.look key).plain rfl⟩
    | some bytes =>
      rw [found, Access.valueOf] at got
      dsimp only
      cases decoded : decodeValue key bytes with
      | ok v =>
        rw [decoded] at got
        rw [Viewing.reply_of_ok got]
        exact ⟨rfl, (h.look key).plain rfl⟩
      | error e =>
        rw [decoded] at got
        rw [Viewing.reply_of_error got]
        exact ⟨rfl, (h.look key).plain rfl⟩

theorem Mirrors.set (h : Mirrored entries d c) (own : Namespace) (raw : String) (v : Value) :
    Mirrored entries (d.act entries limits (.set own raw v))
      (c.follow limits (.set own raw v, (d.answer entries limits (.set own raw v)).1)) := by
  have answered : d.answer entries limits (.set own raw v) =
    (Access.set limits own raw v).reply .size d.view := rfl
  unfold Draft.act
  rw [answered]
  rcases Access.set_cases limits own raw v d.view with ⟨e, refused⟩ | ⟨_, _, -, -, done⟩
  · rw [Viewing.reply_of_error refused]
    exact h.plain rfl
  · obtain ⟨key, bytes, resolved, encoded, put⟩ := Access.set_eq_ok done
    rw [put] at done
    rw [Viewing.reply_of_ok done]
    unfold PrivateCopy.follow
    dsimp only
    rw [resolved, encoded]
    exact (h.change key (.put bytes)).plain rfl

theorem Mirrors.delete (h : Mirrored entries d c) (own : Namespace) (raw : String) :
    Mirrored entries (d.act entries limits (.delete own raw))
      (c.follow limits (.delete own raw, (d.answer entries limits (.delete own raw)).1)) := by
  have answered : d.answer entries limits (.delete own raw) =
    (Access.delete limits own raw).reply (fun _ => .done) d.view := rfl
  unfold Draft.act
  rw [answered]
  rcases Access.delete_cases limits own raw d.view with ⟨e, refused⟩ | ⟨_, -, -, done⟩
  · rw [Viewing.reply_of_error refused]
    exact h.plain rfl
  · obtain ⟨key, resolved, deleted⟩ := Access.delete_eq_ok done
    rw [deleted] at done
    rw [Viewing.reply_of_ok done]
    unfold PrivateCopy.follow
    dsimp only
    rw [resolved]
    exact (h.change key .delete).plain rfl

/-- `follow` does to the copy what the operation does to the view. -/
theorem Mirrors.act (h : Mirrored entries d c) (op : DraftOp) :
    Mirrored entries (d.act entries limits op)
      (c.follow limits (op, (d.answer entries limits op).1)) := by
  cases op with
  | get own raw => exact (h.get own raw).2
  | set own raw v => exact h.set own raw v
  | delete own raw => exact h.delete own raw
  | checkpoint => exact h.checkpoint
  | rollback number =>
    have back := h.rollback number
    unfold Draft.act answer PrivateCopy.follow
    dsimp only
    cases marked : d.checkpoints[number]? <;> rw [marked] at back <;> exact back.plain rfl

/-! ### Runs -/

/-- All operations were answered, every get as the copy said at its time, and in
the end the copy still mirrors the view. -/
structure Kept (start : Committed) (limits : StateLimits) (ops : List DraftOp) (d : Draft) :
    Prop where
  ops : d.log.map Prod.fst = ops
  gets : ∀ before own raw reply later, d.log = before ++ (.get own raw, reply) :: later →
    reply = ((PrivateCopy.mk start []).after limits before).get limits own raw
  mirrors : Mirrored start d ((PrivateCopy.mk start []).after limits d.log)

theorem Kept.act {start : Committed} {ops : List DraftOp} (h : Kept start limits ops d)
    (op : DraftOp) : Kept start limits (ops ++ [op]) (d.act start limits op) where
  ops := by
    change (d.log ++ [_]).map Prod.fst = _
    rw [List.map_append, h.ops]
    rfl
  gets before own raw reply later split := by
    change d.log ++ [(op, (d.answer start limits op).1)] = _ at split
    rcases List.eq_nil_or_concat later with rfl | ⟨rest, last, rfl⟩
    · obtain ⟨same, one⟩ := List.append_inj' split rfl
      cases one
      rw [← same]
      exact (h.mirrors.get own raw).1
    · rw [List.concat_eq_append, ← List.cons_append, ← List.append_assoc] at split
      exact h.gets before own raw reply rest (List.append_inj' split rfl).1
  mirrors := by
    change Mirrored start (d.act start limits op)
      ((PrivateCopy.mk start []).after limits (d.log ++ [(op, (d.answer start limits op).1)]))
    rw [PrivateCopy.after_concat]
    exact h.mirrors.act op

theorem Kept.foldl {start : Committed} {before : List DraftOp} (h : Kept start limits before d)
    (ops : List DraftOp) :
    Kept start limits (before ++ ops) (ops.foldl (Draft.act start limits) d) := by
  induction ops generalizing before d with
  | nil =>
    rw [List.append_nil]
    exact h
  | cons op rest ih =>
    have next := ih (h.act op)
    rw [List.append_assoc] at next
    exact next

theorem kept_run (start : Committed) (limits : StateLimits) (ops : List DraftOp) :
    Kept start limits ops (run start limits ops) := by
  have begun : Kept start limits [] {} :=
    ⟨rfl, fun _ _ _ _ _ split => by simp at split, mirrors_new start⟩
  exact begun.foldl ops

/-- **A view is a copy of the state for oneself.**  Let `run` do any operations through a
fresh writable view while committed state stays as it is.  Every `get` answers what it
finds in a `PrivateCopy` of committed state that did `follow` all before it: each write
and each delete was done to it at once, unless it was refused, a checkpoint put it aside
and a rollback took it up again.  A `commit` that succeeds leaves the store as the copy
is, and unless the store is `refusing`, it succeeds.  What the view has in `reads` is what
the store holds. -/
theorem view_mirrors_copy (store : Store) (limits : StateLimits) (ops : List DraftOp) :
    let d := run store.entries limits ops
    let copy : PrivateCopy := ⟨store.entries, []⟩
    d.log.map Prod.fst = ops ∧
      (∀ before own raw reply later, d.log = before ++ (.get own raw, reply) :: later →
        reply = (copy.after limits before).get limits own raw) ∧
      (∀ after flushed, Access.commit store d.view = .ok (after, flushed) →
        after.entries = (copy.after limits d.log).entries) ∧
      (store.refusing = false → ∃ done, Access.commit store d.view = .ok done) ∧
      ∀ (key : StateKey) (seen : Option (List UInt8)), d.view.reads[key]? = some seen →
        seen = store.entries[key]? := by
  intro d copy
  have kept : Kept store.entries limits ops d := kept_run store.entries limits ops
  have mirrors := kept.mirrors
  refine ⟨kept.ops, kept.gets, fun after flushed committed => ?_, fun accepting => ?_,
    fun key seen read => (mirrors.reads key seen read).symm⟩
  · obtain ⟨-, -, -, flush⟩ := Access.commit_eq_ok_iff.1 committed
    rw [Access.entries_flush flush]
    exact mirrors.now.symm
  · have commits : ∃ after, store.commit d.view.writes = .ok after := by
      unfold Store.commit
      rw [accepting]
      exact ⟨_, rfl⟩
    obtain ⟨after, flush⟩ := Access.exists_flush_iff.2 (.inr commits)
    exact ⟨_, Access.commit_eq_ok_iff.2 ⟨mirrors.writable, mirrors.reads, rfl, flush⟩⟩

end Draft

end LedgerScript
