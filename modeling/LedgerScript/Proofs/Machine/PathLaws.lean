import LedgerScript.Machine.Evaluator
import LedgerScript.Proofs.Machine.NestedCall
import LedgerScript.Proofs.Value.Places

/-!
# Writing at a path

A write goes down its path as a read does, from place to place.  So it is read back, other
paths read what they did, lists keep their lengths, and maps no more than one new key
(`Value.writePath_lawful`).
-/

namespace LedgerScript

namespace Value

variable {new v updated : Value} {key : PathKey} {path rest other : List PathKey}

/-- At every prefix of its path, `writePath` does what the rest of the path does to what
`readPath` finds there. -/
theorem exists_of_writePath_append {front : List PathKey}
    (h : writePath new (front ++ rest) v = .ok () updated) :
    ∃ part changed, v.readPath front = .ok (part, 0) ∧ updated.readPath front = .ok (changed, 0) ∧
      writePath new rest part = .ok () changed := by
  induction front generalizing v updated with
  | nil => exact ⟨v, updated, rfl, rfl, h⟩
  | cons key front ih =>
    obtain ⟨spot, child, inner, reached, written, rfl⟩ := writePath_cons_eq_ok h
    obtain ⟨part, changed, found, found', inside⟩ := ih written
    have selected := select_of_reach reached (spot?_of_reach reached)
    have again := reach_put reached inner
    have selected' := select_of_reach again (spot?_of_reach again)
    refine ⟨part, changed, ?_, ?_, inside⟩
    · rw [readPath_cons_of_ok selected, found, scanned_of_reach reached]
      rfl
    · rw [readPath_cons_of_ok selected', found', scanned_of_reach again]
      rfl

/-! ## Other paths -/

/-- The paths lead through the same places of the value up to where their keys select
different ones. -/
inductive Apart : Value → List PathKey → List PathKey → Prop
  | here {v : Value} {key key' : PathKey} {rest rest' : List PathKey}
    (differ : v.spot? key' ≠ v.spot? key) : Apart v (key :: rest) (key' :: rest')
  | inside {v child : Value} {key key' : PathKey} {rest rest' : List PathKey}
    (same : v.spot? key' = v.spot? key) (selected : v.select key = .ok child)
    (apart : Apart child rest rest') : Apart v (key :: rest) (key' :: rest')

/-- What `readPath` finds along a path that is `Apart` is still there after `writePath`.
The induction follows the paths down to where they part. -/
theorem Apart.readPath_eq (apart : v.Apart path other) (h : writePath new path v = .ok () updated) :
    updated.readPath other = v.readPath other := by
  induction apart generalizing updated with
  | here differ =>
    obtain ⟨spot, child, inner, reached, -, rfl⟩ := writePath_cons_eq_ok h
    rw [spot?_of_reach reached] at differ
    rw [readPath, readPath, select_put_of_ne differ, scanned_put]
  | inside same selected _ ih =>
    obtain ⟨spot, child', inner, reached, written, rfl⟩ := writePath_cons_eq_ok h
    have place := spot?_of_reach reached
    cases selected.symm.trans (select_of_reach reached place)
    have before := select_of_reach reached (same.trans place)
    have after := select_of_reach (reach_put reached inner)
      ((spot?_put ..).trans (same.trans place))
    rw [readPath_cons_of_ok before, readPath_cons_of_ok after, ih written, scanned_put]

/-! ## The same path again -/

theorem writePath_writePath (first second : Value) (path : List PathKey) (v : Value) :
    (writePath first path >>= fun _ => writePath second path) v = writePath second path v := by
  induction path generalizing v with
  | nil => rfl
  | cons key rest ih =>
    have last := writePath_cons second key rest v
    cases reached : v.reach key rest.isEmpty with
    | error f =>
      have refused := writePath_cons first key rest v
      rw [reached] at refused last
      rw [bind_of_error refused, last]
    | ok found =>
      obtain ⟨spot, child⟩ := found
      have inner := ih child
      have step := writePath_cons first key rest v
      rw [reached] at step last
      simp only [Change.within] at step last
      cases written : writePath first rest child with
      | error f part =>
        rw [bind_of_error written] at inner
        rw [written] at step
        rw [bind_of_error step, last, ← inner]
      | ok _ changed =>
        rw [bind_of_ok written] at inner
        rw [written] at step
        rw [bind_of_ok step, writePath_cons, reach_put reached, last, ← inner]
        simp only [Change.within, put_put]

/-! ## Lists and maps on the way -/

/-- A list keeps its length.  A map keeps its keys, and `new?` is the only one that may
come to them. -/
def Grown (new? : Option String) : Value → Value → Prop
  | list items, list items' => items'.length = items.length
  | map entries, map entries' => ∀ name, (Entries.get? entries' name).isSome ↔
      (Entries.get? entries name).isSome ∨ new? = some name
  | _, _ => False

theorem grown_of_writePath (h : writePath new (key :: rest) v = .ok () updated) :
    Grown (if rest.isEmpty then key.mapKey.toOption else none) v updated := by
  obtain ⟨spot, child, changed, reached, -, rfl⟩ := writePath_cons_eq_ok h
  rcases reach_eq_ok reached with ⟨entries, name, rfl, named, rfl, -, inner⟩ |
    ⟨items, n, i, rfl, -, -, rfl, -⟩
  · intro other
    rw [named]
    cases last : rest.isEmpty with
    | true =>
      by_cases same : other = name
      · simp [same, Except.toOption]
      · simp [Entries.get?_put_of_ne same, Except.toOption, Ne.symm same]
    | false =>
      by_cases same : other = name
      · simp [same, Entries.get?_set_self (inner last), inner last]
      · simp [Entries.get?_set_of_ne same]
  · exact List.length_set

/-- What a write of `new` at a path makes of a value. -/
structure Written (new : Value) (path : List PathKey) (v updated : Value) : Prop where
  there : updated.readPath path = .ok (new, 0)
  elsewhere : ∀ other, v.Apart path other → updated.readPath other = v.readPath other
  above : ∀ front key rest, path = front ++ key :: rest → ∃ part changed,
    v.readPath front = .ok (part, 0) ∧ updated.readPath front = .ok (changed, 0) ∧
      Grown (if rest.isEmpty then key.mapKey.toOption else none) part changed

theorem written_of_writePath (h : writePath new path v = .ok () updated) :
    Written new path v updated where
  there := by
    rw [← List.append_nil path] at h
    obtain ⟨part, changed, -, found, written⟩ := exists_of_writePath_append h
    cases written
    exact found
  elsewhere other apart := apart.readPath_eq h
  above front key rest whole := by
    subst whole
    obtain ⟨part, changed, found, found', written⟩ := exists_of_writePath_append h
    exact ⟨part, changed, found, found', grown_of_writePath written⟩

end Value

/-! ## Variables -/

theorem Scope.insert_self {scope : Scope} {name : String} {slot : Slot}
    (found : scope[name]? = some slot) : scope.insert name slot = scope := by
  refine Std.ExtTreeMap.ext_getElem? fun other => ?_
  rw [Std.ExtTreeMap.getElem?_insert]
  split
  · next same => rw [← found, Std.LawfulEqCmp.eq_of_compare same]
  · rfl

theorem Frame.isSome_update? (frame : Frame) (name : String) (v : Value) :
    (frame.update? name v).isSome = (frame.find? name).isSome := by
  induction frame with
  | nil => rfl
  | cons scope outer ih =>
    unfold Frame.update? Frame.find?
    rw [List.findSome?_cons]
    cases scope[name]? with
    | some slot => rfl
    | none =>
      dsimp only
      rw [Option.isSome_map]
      exact ih

theorem Frame.update?_self {frame : Frame} {name : String} {slot : Slot}
    (found : frame.find? name = some slot) : frame.update? name slot.value = some frame := by
  induction frame with
  | nil => cases found
  | cons scope outer ih =>
    unfold Frame.find? at found
    rw [List.findSome?_cons] at found
    unfold Frame.update?
    cases here : scope[name]? with
    | some held =>
      rw [here] at found
      cases found
      exact congrArg (fun scope => some (scope :: outer)) (Scope.insert_self here)
    | none =>
      rw [here] at found
      exact congrArg (Option.map (scope :: ·)) (ih found)

/-- `update` with the value that a variable has already changes nothing. -/
theorem Variables.update_self {v : Variables} {name : String} {slot : Slot}
    (found : v.find? name = some slot) : v.update name slot.value = v := by
  obtain ⟨globals, frames⟩ := v
  unfold Variables.find? at found
  unfold Variables.update
  cases frames with
  | nil =>
    have here : globals[name]? = some slot := found
    simp only [here]
    exact congrArg (Variables.mk · []) (Scope.insert_self here)
  | cons frame below =>
    cases inside : Frame.find? frame name with
    | some held =>
      have same : held = slot := by simpa [inside] using found
      simp only [Frame.update?_self (same ▸ inside)]
    | none =>
      have here : globals[name]? = some slot := by simpa [inside] using found
      have outside : Frame.update? frame name slot.value = none := by
        have lost := Frame.isSome_update? frame name slot.value
        rw [inside, Option.isSome_none, Option.isSome_eq_false_iff] at lost
        exact Option.isNone_iff_eq_none.1 lost
      simp only [outside, here]
      exact congrArg (Variables.mk · (frame :: below)) (Scope.insert_self here)

/-- What `store` does to a variable, given how `writePath` ends; one that fails puts the
value back that was there. -/
theorem Evaluator.store_apply {σ : Type} {m : Machine σ} {root : String} {slot : Slot}
    (found : m.vars.find? root = some slot) (keys : List PathKey) (v : Value) :
    store root keys v m =
      if keys.isEmpty && slot.constant then .error (.script (.constantAssigned root)) m
      else
        match Value.writePath v keys slot.value with
        | .ok _ updated => .ok () { m with vars := m.vars.update root updated }
        | .error f _ => .error (.script f) m := by
  unfold store
  rw [bind_of_ok (Exec.lookup_of_some found)]
  split
  · rfl
  · cases written : Value.writePath v keys slot.value with
    | ok _ updated => exact Exec.change_of_ok written root
    | error f after =>
      rw [Exec.change_of_error written, Value.writePath_eq_error written,
        Variables.update_self found]

namespace Value

/-- **A write at a path is lawful.**  If `writePath` succeeds, what was written is read back,
every path that leads to another key of a map, position of a list, or length, reads what it
read before, the lists on the way keep their lengths, and of the maps only the last one may
gain a key, the last one of the path (`Written`).  A second write leaves nothing of the first.
If `writePath` fails, the value that it was changing in place is what it was, and so is the
whole machine whose variable held it. -/
theorem writePath_lawful {σ : Type} (new : Value) (path : List PathKey) (v : Value) :
    (∀ updated, writePath new path v = .ok () updated → Written new path v updated) ∧
      (∀ later,
        (writePath new path >>= fun _ => writePath later path) v = writePath later path v) ∧
      ∀ f after, writePath new path v = .error f after → after = v ∧
        ∀ (m : Machine σ) (root : String) (slot : Slot), m.vars.find? root = some slot →
          slot.value = v → Evaluator.store root path new m = .error (.script f) m := by
  refine ⟨fun updated => written_of_writePath, fun later => writePath_writePath new later path v,
    fun f after failed => ⟨writePath_eq_error failed, fun m root slot found held => ?_⟩⟩
  have inside : path.isEmpty = false := by
    cases path with
    | nil => cases failed
    | cons key rest => rfl
  rw [Evaluator.store_apply found, inside, held, failed]
  rfl

end Value

namespace AccountBook

/-- Balances under the digits of account numbers, and the last two moves. -/
def book : Value :=
  .map [("balances", .map [("7", .int 70)]), ("log", .list [.int 0, .int 0])]

/-- The balance of a number, whose digits are the key. -/
def balance (n : Int64) : List PathKey := [.name "balances", .value (.int n)]

def move (n : Int64) : List PathKey := [.name "log", .value (.int n)]

/-- A machine with the book in a variable. -/
def machine : Machine Unit where
  vars := { globals := (∅ : Scope).insert "book" ⟨book, false⟩ }
  host := .new (.new {} 1) {} (.forInvoke (Contract.specimen 0 []).id "" "m" .null 0)
  outside := ()

/-- What went wrong in a change, and what it left. -/
def ending : EStateM.Result ScriptFault Value Unit → Option ScriptFault × Value
  | .ok _ v => (none, v)
  | .error f v => (some f, v)

theorem eq_error_of_ending {r : EStateM.Result ScriptFault Value Unit} {f : ScriptFault}
    {v : Value} (h : ending r = (some f, v)) : r = .error f v := by
  cases r <;> cases h
  rfl

theorem exists_eq_ok_of_ending {r : EStateM.Result ScriptFault Value Unit}
    (h : (ending r).1 = none) : ∃ v, r = .ok () v := by
  cases r <;> cases h
  exact ⟨_, rfl⟩

/-- `writePath_lawful` for a new balance, which leaves the old one, and for a third move,
which is refused. -/
theorem book_written :
    (∃ updated, Value.writePath (.int 80) (balance 8) book = .ok () updated ∧
      Value.Written (.int 80) (balance 8) book updated ∧
      updated.readPath (balance 8) = .ok (.int 80, 0) ∧
      updated.readPath [.name "balances", .value (.str "7")] = .ok (.int 70, 0)) ∧
    Value.writePath .null (move 2) book = .error (.indexOutOfBounds 2 2) book ∧
      machine.vars.find? "book" = some ⟨book, false⟩ ∧
      Evaluator.store "book" (move 2) .null machine =
        .error (.script (.indexOutOfBounds 2 2)) machine := by
  have place : machine.vars.find? "book" = some ⟨book, false⟩ := by
    simp [machine, Variables.find?]
  have refused : Value.writePath .null (move 2) book = .error (.indexOutOfBounds 2 2) book :=
    eq_error_of_ending (by decide +kernel)
  obtain ⟨updated, written⟩ :=
    exists_eq_ok_of_ending (r := Value.writePath (.int 80) (balance 8) book) (by decide +kernel)
  have lawful := (Value.writePath_lawful (σ := Unit) (.int 80) (balance 8) book).1 updated written
  have selected : book.select (.name "balances") = .ok (.map [("7", .int 70)]) := rfl
  have apart : book.Apart (balance 8) [.name "balances", .value (.str "7")] :=
    .inside rfl selected (.here (by decide +kernel))
  have old : book.readPath [.name "balances", .value (.str "7")] = .ok (.int 70, 0) := rfl
  have refusal := (Value.writePath_lawful (σ := Unit) .null (move 2) book).2.2 _ _ refused
  exact ⟨⟨updated, written, lawful, lawful.there, (lawful.elsewhere _ apart).trans old⟩, refused,
    place, refusal.2 machine "book" _ place rfl⟩

end AccountBook

end LedgerScript
