import LedgerScript.State.Key
import Std.Data.ExtTreeMap

/-!
# Views

What a call would change in the state is kept by key.  The digest of a set of writes
is taken over their listing in the order of the keys, where every part that
can vary in length has its length in front.

A call sees the state through a view: its own pending writes first, then what
it has seen of the committed state, which it remembers.  What the view knows of
a key is all that its operations change (`known?_put`, `known?_delete`,
`known?_record`).
-/

namespace LedgerScript

/-! ## Pending writes -/

/-- A change of one key. -/
inductive WriteOp where
  | put (bytes : List UInt8)
  | delete
  deriving DecidableEq, Repr

/-- What a key holds after a change. -/
def WriteOp.bytes? : WriteOp → Option (List UInt8)
  | put bytes => some bytes
  | delete => none

/-- Changes by key; a later change of a key replaces an earlier one. -/
abbrev WriteSet := Std.ExtTreeMap StateKey WriteOp

namespace WriteSet

/-- The changes one after the other, by `insert`. -/
def ofList (changes : List (StateKey × WriteOp)) : WriteSet :=
  changes.foldl (fun writes (key, op) => writes.insert key op) ∅

/-- The namespaces with a change, in rising order. -/
def spaces (w : WriteSet) : List Namespace :=
  (w.keys.map StateKey.space).eraseReps

/-- A length in eight bytes. -/
def lengthBytes (n : Nat) : List UInt8 :=
  Sha256.bigEndian 8 n

/-- Bytes with their length in front. -/
def framed (bytes : List UInt8) : List UInt8 :=
  lengthBytes bytes.length ++ bytes

/-- One change as bytes. -/
def listed (key : StateKey) (op : WriteOp) : List UInt8 :=
  framed (Text.utf8 key.space) ++ framed (Text.utf8 key.name) ++
    match op with
    | .put bytes => 1 :: framed bytes
    | .delete => [0]

/-- All changes as bytes, in the order of their keys. -/
def listing (w : WriteSet) : List UInt8 :=
  w.toList.flatMap fun (key, op) => listed key op

/-- The digest of the changes: `sha256` of their `listing`. -/
def digest (w : WriteSet) : List UInt8 :=
  sha256 w.listing

end WriteSet

/-! ## Views -/

/-- Bytes that are stored under keys. -/
abbrev Committed := Std.ExtTreeMap StateKey (List UInt8)

/-- What committed state held under the keys that were looked at. -/
abbrev ReadSet := Std.ExtTreeMap StateKey (Option (List UInt8))

/-- The state as one call sees it. -/
structure View where
  writes : WriteSet := ∅
  reads : ReadSet := ∅
  /-- The writes will never be committed. -/
  readOnly : Bool := false

namespace View

/-- A view of a call that commits nothing: it is `readOnly`. -/
def forReading : View := { readOnly := true }

/-- What the view knows of a key without looking at committed state, from `writes` and
then from `reads`. -/
def known? (v : View) (key : StateKey) : Option (Option (List UInt8)) :=
  match v.writes[key]? with
  | some op => some op.bytes?
  | none => v.reads[key]?

/-- Remembers what committed state holds; only the first look counts. -/
def record (v : View) (key : StateKey) (bytes : Option (List UInt8)) : View :=
  { v with reads := v.reads.insertIfNew key bytes }

/-- A pending write. -/
def put (v : View) (key : StateKey) (bytes : List UInt8) : View :=
  { v with writes := v.writes.insert key (.put bytes) }

/-- A pending delete. -/
def delete (v : View) (key : StateKey) : View :=
  { v with writes := v.writes.insert key .delete }

/-- Takes the pending writes back to those of an earlier time; `reads` stay. -/
def rollback (v : View) (writes : WriteSet) : View :=
  { v with writes := writes }

/-! ## What a view knows -/

theorem known?_put (v : View) (key other : StateKey) (bytes : List UInt8) :
    (v.put key bytes).known? other = if key = other then some (some bytes) else v.known? other := by
  by_cases h : key = other <;>
    simp [known?, put, h, Std.ExtTreeMap.getElem?_insert, WriteOp.bytes?]

theorem known?_delete (v : View) (key other : StateKey) :
    (v.delete key).known? other = if key = other then some none else v.known? other := by
  by_cases h : key = other <;>
    simp [known?, delete, h, Std.ExtTreeMap.getElem?_insert, WriteOp.bytes?]

/-- `record` of a key does not change what is known of it already. -/
theorem known?_record (v : View) (key other : StateKey) (bytes : Option (List UInt8)) :
    (v.record key bytes).known? other =
      if key = other then some ((v.known? key).getD bytes) else v.known? other := by
  simp only [known?, record, Std.ExtTreeMap.getElem?_insertIfNew, Std.compare_eq_iff_eq,
    Std.ExtTreeMap.mem_iff_isSome_getElem?]
  by_cases h : key = other
  · subst h
    cases hw : v.writes[key]? <;> cases hr : v.reads[key]? <;> simp
  · simp [h]

end View

end LedgerScript
