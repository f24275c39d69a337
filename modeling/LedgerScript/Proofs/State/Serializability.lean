import LedgerScript.Proofs.State.Reading

/-!
# Views that are used side by side

Any number of views may be open over one store, and what is done through them
may be interleaved in any way.  A view that commits could have had the store to
itself: its whole session, run again from a fresh view over the state that the
commit found, answers the same and writes the same (`Session.Repeatable`).  So
the committed sessions could have been run one after the other, in the order of
their commits.  Main statement: `interleaving_serializable`.
-/

namespace LedgerScript

/-! ## Sessions -/

/-- What is done through a view before it is committed or dropped. -/
inductive ViewOp where
  | get (own : Namespace) (raw : String)
  | set (own : Namespace) (raw : String) (v : Value)
  | delete (own : Namespace) (raw : String)
  | readThrough (key : StateKey)
  /-- Asks for the pending writes, to come back to them. -/
  | checkpoint
  /-- Comes back to pending writes of an earlier time. -/
  | rollback (writes : WriteSet)

/-- What an operation answers. -/
inductive ViewReply where
  | value (v : Value)
  | size (n : Nat)
  | bytes (b : Option (List UInt8))
  | saved (writes : WriteSet)
  | done
  | failed (e : ContractError)

/-- The answer of an access, and the view that it leaves. -/
def Viewing.reply {α : Type} (x : Viewing α) (f : α → ViewReply) (view : View) :
    ViewReply × View :=
  match x view with
  | .ok a view => (f a, view)
  | .error e view => (.failed e, view)

/-- Does one operation over committed state. -/
def ViewOp.run (entries : Committed) (limits : StateLimits) : ViewOp → View → ViewReply × View
  | get own raw => Viewing.reply (Access.get entries limits own raw) .value
  | set own raw v => Viewing.reply (Access.set limits own raw v) .size
  | delete own raw => Viewing.reply (Access.delete limits own raw) fun _ => .done
  | readThrough key => Viewing.reply (Access.readThrough entries key) .bytes
  | checkpoint => fun view => (.saved view.writes, view)
  | rollback writes => fun view => (.done, view.rollback writes)

/-- A view with all that was done through it, and all answers. -/
structure Session where
  ops : List ViewOp
  replies : List ViewReply
  view : View

namespace Session

/-- A view that has just been opened. -/
def fresh (readOnly : Bool) : Session := ⟨[], [], { readOnly := readOnly }⟩

/-- One more operation. -/
def act (entries : Committed) (limits : StateLimits) (x : Session) (op : ViewOp) : Session :=
  let (reply, view) := op.run entries limits x.view
  { x with ops := x.ops ++ [op], replies := x.replies ++ [reply], view := view }

/-- Operations on a fresh view, with nothing in between. -/
def replay (entries : Committed) (limits : StateLimits) (readOnly : Bool) (ops : List ViewOp) :
    Session :=
  ops.foldl (act entries limits) (fresh readOnly)

theorem replay_append (entries : Committed) (limits : StateLimits) (readOnly : Bool)
    (ops : List ViewOp) (op : ViewOp) :
    replay entries limits readOnly (ops ++ [op]) =
      (replay entries limits readOnly ops).act entries limits op := by
  unfold replay
  rw [List.foldl_append]
  rfl

end Session

/-! ## Interleavings -/

/-- A commit that succeeded: the store that it found, the session, what was
written, and the store that it left. -/
structure Commit where
  before : Store
  session : Session
  flushed : WriteSet
  after : Store

/-- A store with the views that are open over it, by number, and the commits
that have succeeded, in their order. -/
structure Traffic where
  store : Store
  sessions : List (Option Session) := []
  commits : List Commit := []

/-- What may happen next; a view is known by its number. -/
inductive Traffic.Action where
  | openView (readOnly : Bool)
  | operate (view : Nat) (op : ViewOp)
  | commit (view : Nat)
  | discard (view : Nat)

namespace Traffic

/-- The session of an open view. -/
def session? (t : Traffic) (view : Nat) : Option Session := t.sessions[view]?.join

/-- The view is used up. -/
def close (t : Traffic) (view : Nat) : Traffic :=
  { t with sessions := t.sessions.set view none }

/-- One action; an action on a view that is not open changes nothing. -/
def step (limits : StateLimits) (t : Traffic) : Action → Traffic
  | .openView readOnly => { t with sessions := t.sessions ++ [some (.fresh readOnly)] }
  | .operate view op =>
    match t.session? view with
    | none => t
    | some x =>
      { t with sessions := t.sessions.set view (some (x.act t.store.entries limits op)) }
  | .commit view =>
    match t.session? view with
    | none => t
    | some x =>
      match Access.commit t.store x.view with
      | .error _ => t.close view
      | .ok (after, flushed) =>
        { t.close view with store := after, commits := t.commits ++ [⟨t.store, x, flushed, after⟩] }
  | .discard view => t.close view

/-- All actions one after the other, over a store that nobody else writes. -/
def run (limits : StateLimits) (store : Store) (actions : List Action) : Traffic :=
  actions.foldl (step limits) { store := store }

/-- Sessions one after the other: each is done on a fresh writable view and
committed before the next one begins. -/
def serial (limits : StateLimits) :
    Store → List (List ViewOp) → Except ContractError (List Commit × Store)
  | store, [] => .ok ([], store)
  | store, ops :: rest => do
    let x := Session.replay store.entries limits false ops
    let (after, flushed) ← Access.commit store x.view
    let (commits, last) ← serial limits after rest
    return (⟨store, x, flushed, after⟩ :: commits, last)

end Traffic

/-! ## One operation -/

section Operation

variable {entries other : Committed} {limits : StateLimits} {view : View}

theorem Viewing.reply_of_eq {α : Type} {x y : Viewing α} (f : α → ViewReply)
    (h : x view = y view) : x.reply f view = y.reply f view := by
  unfold Viewing.reply
  rw [h]

theorem reply_get_of_ok {own : Namespace} {raw : String} {key : StateKey}
    (h : resolveKey own raw limits.maxKeyLength.toNat = .ok key) :
    ((Access.get entries limits own raw).reply .value view).2 = view.look entries key := by
  unfold Viewing.reply
  rw [Access.get_of_ok h]
  cases Access.valueOf key (view.found entries key) <;> rfl

/-- `run` leaves `readOnly` of a view as it is, and what is in its `reads`. -/
theorem ViewOp.run_keeps (op : ViewOp) (entries : Committed) (limits : StateLimits) (view : View) :
    (op.run entries limits view).2.readOnly = view.readOnly ∧
      ∀ (key : StateKey) (seen : Option (List UInt8)), view.reads[key]? = some seen →
        (op.run entries limits view).2.reads[key]? = some seen := by
  cases op with
  | get own raw =>
    simp only [ViewOp.run]
    cases hk : resolveKey own raw limits.maxKeyLength.toNat with
    | error e =>
      unfold Viewing.reply
      rw [Access.get_of_error hk]
      exact ⟨rfl, fun _ _ h => h⟩
    | ok key =>
      rw [reply_get_of_ok hk]
      exact ⟨View.readOnly_look view entries key, fun _ _ h =>
        View.reads_look_of_some entries key h⟩
  | set own raw v =>
    simp only [ViewOp.run, Viewing.reply]
    rcases Access.set_cases limits own raw v view with ⟨e, hs⟩ | ⟨k, bytes, -, -, hs⟩ <;>
      rw [hs] <;> exact ⟨rfl, fun _ _ h => h⟩
  | delete own raw =>
    simp only [ViewOp.run, Viewing.reply]
    rcases Access.delete_cases limits own raw view with ⟨e, hd⟩ | ⟨k, -, -, hd⟩ <;> rw [hd] <;>
      exact ⟨rfl, fun _ _ h => h⟩
  | readThrough key =>
    simp only [ViewOp.run, Viewing.reply]
    rw [Access.readThrough_eq]
    exact ⟨View.readOnly_look view entries key, fun _ _ h => View.reads_look_of_some entries key h⟩
  | checkpoint => exact ⟨rfl, fun _ _ h => h⟩
  | rollback writes => exact ⟨rfl, fun _ _ h => h⟩

/-- `run` does the same over committed state that `Holds` all that has been seen, this
operation included. -/
theorem ViewOp.run_congr (op : ViewOp) (h : (op.run entries limits view).2.reads.Holds other) :
    op.run other limits view = op.run entries limits view := by
  cases op with
  | get own raw =>
    simp only [ViewOp.run] at h ⊢
    apply Viewing.reply_of_eq
    cases hk : resolveKey own raw limits.maxKeyLength.toNat with
    | error e => rw [Access.get_of_error hk, Access.get_of_error hk]
    | ok key =>
      rw [reply_get_of_ok hk] at h
      obtain ⟨look, found⟩ := View.look_congr h
      rw [Access.get_of_ok hk, Access.get_of_ok hk, look, found]
  | set own raw v => rfl
  | delete own raw => rfl
  | readThrough key =>
    simp only [ViewOp.run, Viewing.reply] at h ⊢
    rw [Access.readThrough_eq] at h ⊢
    obtain ⟨look, found⟩ := View.look_congr h
    rw [Access.readThrough_eq, look, found]
  | checkpoint => rfl
  | rollback writes => rfl

end Operation

/-! ## One session -/

namespace Session

variable {entries other : Committed} {limits : StateLimits} {x : Session}

/-- The session is what a fresh view gives over any committed state that holds
all that the session has seen. -/
def Repeatable (limits : StateLimits) (x : Session) : Prop :=
  ∀ entries, x.view.reads.Holds entries → replay entries limits x.view.readOnly x.ops = x

theorem repeatable_fresh (limits : StateLimits) (readOnly : Bool) :
    (fresh readOnly).Repeatable limits :=
  fun _ _ => rfl

/-- A session stays `Repeatable` with one more operation over whatever is committed by
then: the operations before it saw less than it leaves seen. -/
theorem Repeatable.act (h : x.Repeatable limits) (entries : Committed) (op : ViewOp) :
    (x.act entries limits op).Repeatable limits := by
  intro other holds
  obtain ⟨readOnly, remembered⟩ := op.run_keeps entries limits x.view
  have before : x.view.reads.Holds other := fun key seen hs =>
    holds key seen (remembered key seen hs)
  have same : op.run other limits x.view = op.run entries limits x.view := op.run_congr holds
  change replay other limits (op.run entries limits x.view).2.readOnly (x.ops ++ [op]) = _
  rw [readOnly, replay_append, h other before]
  unfold Session.act
  rw [same]

end Session

/-! ## All sessions -/

/-- `replay` of the session of a commit, over what the commit found, comes out the same
and commits the same. -/
def Commit.Repeats (limits : StateLimits) (c : Commit) : Prop :=
  Session.replay c.before.entries limits c.session.view.readOnly c.session.ops = c.session ∧
    Access.commit c.before c.session.view = .ok (c.after, c.flushed)

namespace Traffic

variable {limits : StateLimits} {store : Store} {t : Traffic}

/-- What holds after any number of actions on a store. -/
structure Serial (limits : StateLimits) (store : Store) (t : Traffic) : Prop where
  repeatable : ∀ view x, t.session? view = some x → x.Repeatable limits
  repeats : ∀ c ∈ t.commits, c.Repeats limits
  serial : serial limits store (t.commits.map (·.session.ops)) = .ok (t.commits, t.store)
  overlaid : t.store.entries =
    t.commits.foldl (fun entries c => entries.overlay c.flushed) store.entries

theorem serial_start (limits : StateLimits) (store : Store) :
    Serial limits store { store := store } where
  repeatable view x h := by simp [session?] at h
  repeats c h := by cases h
  serial := rfl
  overlaid := rfl

theorem serial_append {opss : List (List ViewOp)} {commits : List Commit} {last after : Store}
    (ops : List ViewOp) {flushed : WriteSet} (h : serial limits store opss = .ok (commits, last))
    (hc : Access.commit last (Session.replay last.entries limits false ops).view =
      .ok (after, flushed)) :
    serial limits store (opss ++ [ops]) =
      .ok (commits ++ [⟨last, Session.replay last.entries limits false ops, flushed, after⟩],
        after) := by
  induction opss generalizing store commits with
  | nil =>
    cases h
    simp only [List.nil_append, serial, hc]
    rfl
  | cons first rest ih =>
    simp only [List.cons_append, serial] at h ⊢
    cases hf : Access.commit store (Session.replay store.entries limits false first).view with
    | error e =>
      rw [hf] at h
      cases h
    | ok done =>
      rw [hf] at h
      cases hr : serial limits done.1 rest with
      | error e =>
        change (serial limits done.1 rest >>= _) = _ at h
        rw [hr] at h
        cases h
      | ok later =>
        change (serial limits done.1 rest >>= _) = _ at h
        change (serial limits done.1 (rest ++ [ops]) >>= _) = _
        rw [hr] at h
        cases h
        rw [ih hr]
        rfl

theorem session?_close {view other : Nat} {x : Session}
    (h : (t.close view).session? other = some x) : t.session? other = some x := by
  unfold session? close at h
  rw [List.getElem?_set] at h
  split at h
  · split at h <;> cases h
  · exact h

theorem Serial.close (h : Serial limits store t) (view : Nat) :
    Serial limits store (t.close view) where
  repeatable other x hx := h.repeatable other x (session?_close hx)
  repeats := h.repeats
  serial := h.serial
  overlaid := h.overlaid

theorem Serial.openView (h : Serial limits store t) (readOnly : Bool) :
    Serial limits store (t.step limits (.openView readOnly)) where
  repeatable view x hx := by
    simp only [session?, step, List.getElem?_append] at hx
    split at hx
    · exact h.repeatable view x hx
    · rw [List.getElem?_singleton] at hx
      split at hx
      · cases hx
        exact Session.repeatable_fresh limits readOnly
      · cases hx
  repeats := h.repeats
  serial := h.serial
  overlaid := h.overlaid

theorem Serial.operate (h : Serial limits store t) (view : Nat) (op : ViewOp) :
    Serial limits store (t.step limits (.operate view op)) := by
  cases hv : t.session? view with
  | none =>
    simp only [step, hv]
    exact h
  | some x =>
    simp only [step, hv]
    refine ⟨fun other y hy => ?_, h.repeats, h.serial, h.overlaid⟩
    unfold session? at hy
    rw [List.getElem?_set] at hy
    split at hy
    · split at hy
      · cases hy
        exact (h.repeatable view x hv).act t.store.entries op
      · cases hy
    · exact h.repeatable other y hy

/-- `Serial` after a commit: what it found agrees with all that its session saw, so the
session could have been run there. -/
theorem Serial.commit (h : Serial limits store t) (view : Nat) :
    Serial limits store (t.step limits (.commit view)) := by
  cases hv : t.session? view with
  | none =>
    simp only [step, hv]
    exact h
  | some x =>
    cases hc : Access.commit t.store x.view with
    | error e =>
      simp only [step, hv, hc]
      exact h.close view
    | ok done =>
      obtain ⟨after, flushed⟩ := done
      simp only [step, hv, hc]
      obtain ⟨writable, holds, same, written⟩ := Access.commit_eq_ok_iff.1 hc
      have replayed := h.repeatable view x hv t.store.entries holds
      refine ⟨fun other y hy => h.repeatable other y (session?_close hy), fun c mem => ?_, ?_, ?_⟩
      · rcases List.mem_append.1 mem with mem | mem
        · exact h.repeats c mem
        · rw [List.mem_singleton.1 mem]
          exact ⟨replayed, hc⟩
      · rw [writable] at replayed
        rw [List.map_append]
        have last := serial_append x.ops h.serial (by rw [replayed]; exact hc)
        rw [replayed] at last
        exact last
      · rw [List.foldl_append, ← h.overlaid]
        change after.entries = t.store.entries.overlay flushed
        rw [same]
        exact Access.entries_flush written

theorem Serial.step (h : Serial limits store t) (a : Action) :
    Serial limits store (t.step limits a) := by
  cases a with
  | openView readOnly => exact h.openView readOnly
  | operate view op => exact h.operate view op
  | commit view => exact h.commit view
  | discard view => exact h.close view

theorem Serial.foldl (h : Serial limits store t) (actions : List Action) :
    Serial limits store (actions.foldl (Traffic.step limits) t) := by
  induction actions generalizing t with
  | nil => exact h
  | cons a rest ih => exact ih (h.step a)

/-- **Interleaved views are serializable.**  Let `run` take any actions over any number of
views, in whatever order.  For every commit, `replay` of its session over the store that
it found answers and writes the same, and commits the same.  So `serial`, which does the
sessions one after the other in the order of their commits, answers the same, writes the
same and leaves the same store.  No committed write is lost: the store is the first one
with each `flushed` write set laid over it in turn. -/
theorem interleaving_serializable (limits : StateLimits) (store : Store) (actions : List Action) :
    let t := run limits store actions
    (∀ c ∈ t.commits,
        Session.replay c.before.entries limits c.session.view.readOnly c.session.ops = c.session ∧
          Access.commit c.before c.session.view = .ok (c.after, c.flushed)) ∧
      serial limits store (t.commits.map (·.session.ops)) = .ok (t.commits, t.store) ∧
      t.store.entries =
        t.commits.foldl (fun entries c => entries.overlay c.flushed) store.entries := by
  have all : Serial limits store (run limits store actions) :=
    (serial_start limits store).foldl actions
  exact ⟨all.repeats, all.serial, all.overlaid⟩

/-- Two views count the same key up at the same time, while a third one looks
on. -/
def race : List Action :=
  [.openView false, .openView false, .openView true, .operate 0 (.get "aa" "n"),
    .operate 1 (.get "aa" "n"), .operate 0 (.set "aa" "n" (.int 1)), .operate 2 (.get "aa" "n"),
    .operate 1 (.set "aa" "n" (.int 1)), .commit 0, .commit 1, .discard 2]

/-- `interleaving_serializable` for the race: only one of the two is committed, and it
could have been alone. -/
theorem race_serializable :
    ∃ c, (run {} {} race).commits = [c] ∧
      Session.replay c.before.entries {} c.session.view.readOnly c.session.ops = c.session ∧
        Access.commit c.before c.session.view = .ok (c.after, c.flushed) := by
  have one : (run {} {} race).commits.length = 1 := by decide +kernel
  obtain ⟨c, hc⟩ := List.length_eq_one_iff.1 one
  refine ⟨c, hc, (interleaving_serializable {} {} race).1 c ?_⟩
  rw [hc]
  exact List.mem_singleton_self c

end Traffic

end LedgerScript
