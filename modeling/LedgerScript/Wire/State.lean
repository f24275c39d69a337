import LedgerScript.Json.Decode
import LedgerScript.Json.Document
import LedgerScript.State.View
import LedgerScript.Value.Entries

/-!
# State as documents

Identities are written in digits and bytes as lists of numbers.  Pending
writes are grouped by namespace, and a group may be empty.
-/

namespace LedgerScript

open Json (Document Read Record required)

/-- Bytes as a document. -/
def bytesDocument (bytes : List UInt8) : Document :=
  .list (bytes.map fun b => .int b.toNat)

namespace ContractId

/-- Reads an identity. -/
def read (_room : Nat) : Read ContractId := do
  match ofHex (← Json.readString) with
  | .ok id => return id
  | .error fault => Json.refuse (.badHex fault)

/-- An identity as a document. -/
def document (id : ContractId) : Document := .str id.hex

end ContractId

namespace StateKey

/-- The fields of a key that have been read. -/
structure Draft where
  space : Option Namespace := none
  name : Option String := none

/-- How a key is read. -/
def record : Record Draft StateKey where
  type := "NamespacedKey"
  fields := [
    .of "namespace" (fun _ => Json.readString) Draft.space fun d s => { d with space := some s },
    .of "key" (fun _ => Json.readString) Draft.name fun d s => { d with name := some s }]
  start := {}
  finish d := do
    let space ← required "namespace" d.space
    let name ← required "key" d.name
    return ⟨space, name⟩

/-- A key as a document. -/
def document (key : StateKey) : Document :=
  .object [("namespace", .str key.space), ("key", .str key.name)]

end StateKey

namespace WriteOp

/-- Reads a change of a key. -/
def read : (room : Nat) → Read WriteOp :=
  Json.readChoice ["Put", "Delete"]
    (fun name =>
      if name = "Put" then Json.refuse (.invalidType .unitVariant "newtype variant")
      else return delete)
    (fun room name =>
      if name = "Put" then return put (← Json.readBytes room)
      else do
        Json.readUnit
        return delete)

/-- A change of a key as a document. -/
def document : WriteOp → Document
  | put bytes => .object [("Put", bytesDocument bytes)]
  | delete => .str "Delete"

end WriteOp

/-- Pending writes in groups, one for each namespace. -/
abbrev WriteGroups := Entries (Entries WriteOp)

namespace WriteGroups

/-- The fields of pending writes that have been read. -/
structure Draft where
  entries : Option WriteGroups := none

/-- Reads the groups; of several groups of one namespace the last one counts,
and so it does with the writes of a group. -/
def readGroups (room : Nat) : Read WriteGroups := do
  let groups ← Json.readMap (fun room => do
    return Entries.ofList (← Json.readMap WriteOp.read room)) room
  return Entries.ofList groups

/-- How pending writes are read. -/
def record : Record Draft WriteGroups where
  type := "WriteSet"
  fields := [.of "entries" readGroups Draft.entries fun d e => { d with entries := some e }]
  start := {}
  finish d := required "entries" d.entries

/-- Pending writes as a document. -/
def document (groups : WriteGroups) : Document :=
  .object [("entries", .object (groups.map fun (space, writes) =>
    (space, .object (writes.map fun (name, op) => (name, op.document)))))]

/-- The writes of all groups. -/
def writes (groups : WriteGroups) : WriteSet :=
  WriteSet.ofList <| groups.flatMap fun (space, ops) =>
    ops.map fun (name, op) => (⟨space, name⟩, op)

/-- The groups of pending writes; none is empty. -/
def ofWrites (w : WriteSet) : WriteGroups :=
  w.toList.foldl (fun groups (key, op) =>
    groups.put key.space (((groups.get? key.space).getD []).put key.name op)) []

end WriteGroups

end LedgerScript
