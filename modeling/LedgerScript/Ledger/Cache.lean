import LedgerScript.Contract.Basic
import LedgerScript.Contract.Error

/-!
# The cache of contracts

A source is admitted if it has a legal size, is text, compiles, and uses no
forbidden name.  Contracts that were admitted stay at hand by their identity;
when there are too many, the one that was used least recently goes.  What the
operations do to the identities at hand, in the order of their last use, is
said by `ids_get`, `ids_hold` and `ids_evict`.
-/

namespace LedgerScript

/-! ## Admission -/

/-- Which sources are admitted. -/
structure Admission where
  /-- The length in bytes that a source may have. -/
  maxSize : Nat := 10240
  /-- Names that a program may not take from its surroundings. -/
  forbidden : List String := []

namespace Admission

/-- A source has at least one byte and not too many. -/
def legalSize (a : Admission) (source : List UInt8) : Bool :=
  !source.isEmpty && source.length ≤ a.maxSize

/-- The first of the `globals` of a program that is forbidden. -/
def forbiddenName? (a : Admission) (c : Script.Compiled) : Option String :=
  c.globals.find? (· ∈ a.forbidden)

/-- The contract of a source of legal size, or why it is none: `malformed`, not parsed, or
`forbiddenGlobal`. -/
def compile (a : Admission) (source : List UInt8) : Except LoadError Contract :=
  match Text.ofUtf8 source with
  | .error fault => .error (.malformed fault.message)
  | .ok text =>
    match Contract.ofSource text with
    | .error e => .error (.ofParseError e)
    | .ok contract =>
      match a.forbiddenName? contract.compiled with
      | some name => .error (.forbiddenGlobal name)
      | none => .ok contract

/-- The contract of a source; `invalidSize` if its size is not legal. -/
def accept (a : Admission) (source : List UInt8) : Except LoadError Contract :=
  if a.legalSize source then a.compile source
  else .error (.invalidSize source.length a.maxSize)

end Admission

/-! ## Contracts at hand -/

/-- Contracts at hand, with counts of how often they were. -/
structure Cache where
  admission : Admission
  capacity : Nat
  /-- The contracts at hand, the one used last in front. -/
  held : List Contract := []
  hits : Nat := 0
  misses : Nat := 0
  /-- Sources that were compiled and admitted. -/
  compiled : Nat := 0
  /-- Contracts that went because there were too many. -/
  evictions : Nat := 0

namespace Cache

/-- An empty cache; there is always room for one contract. -/
def new (admission : Admission) (capacity : Nat) : Cache where
  admission := admission
  capacity := max capacity 1

/-- The contract is in `held`; looking does not count as use. -/
def contains (c : Cache) (id : ContractId) : Bool :=
  c.held.any (·.id = id)

/-- The contracts at hand without the one of an identity. -/
def without (c : Cache) (id : ContractId) : List Contract :=
  c.held.filter (·.id ≠ id)

/-- Looks a contract up and counts the look; a contract that is found was used
last. -/
def get (c : Cache) (id : ContractId) : Option Contract × Cache :=
  match c.held.find? (·.id = id) with
  | some contract =>
    (some contract, { c with held := contract :: c.without id, hits := c.hits + 1 })
  | none => (none, { c with misses := c.misses + 1 })

/-- Takes in a contract that has been compiled; what is then beyond `capacity` goes. -/
def hold (c : Cache) (contract : Contract) : Cache :=
  let held := contract :: c.without contract.id
  { c with
    held := held.take c.capacity
    compiled := c.compiled + 1
    evictions := c.evictions + (held.length - c.capacity) }

/-- Drops a contract, and tells whether it was at hand. -/
def evict (c : Cache) (id : ContractId) : Bool × Cache :=
  (c.contains id, { c with held := c.without id })

/-- The contract of a source, which is compiled only if `get` does not find it. -/
def load (c : Cache) (source : List UInt8) : Except LoadError Contract × Cache :=
  if c.admission.legalSize source then
    match c.get (ContractId.ofSource source) with
    | (some contract, c) => (.ok contract, c)
    | (none, c) =>
      match c.admission.compile source with
      | .error e => (.error e, c)
      | .ok contract => (.ok contract, c.hold contract)
  else (.error (.invalidSize source.length c.admission.maxSize), c)

/-! ## The order of use -/

/-- The identities of the contracts at hand, the one used last in front. -/
def ids (c : Cache) : List ContractId :=
  c.held.map Contract.id

@[simp] theorem ids_new (admission : Admission) (capacity : Nat) :
    (new admission capacity).ids = [] := rfl

theorem contains_iff (c : Cache) (id : ContractId) : c.contains id = true ↔ id ∈ c.ids := by
  simp [contains, ids]

theorem map_id_without (c : Cache) (id : ContractId) :
    (c.without id).map Contract.id = c.ids.filter (· ≠ id) := by
  simp only [without, ids, List.filter_map]
  rfl

/-- `get` moves a contract that it finds to the front. -/
theorem ids_get (c : Cache) (id : ContractId) :
    (c.get id).2.ids = if id ∈ c.ids then id :: c.ids.filter (· ≠ id) else c.ids := by
  unfold get
  split
  · next contract found =>
    have same : contract.id = id := by simpa using List.find?_some found
    have mem : id ∈ c.ids := same ▸ List.mem_map_of_mem (List.mem_of_find?_eq_some found)
    rw [if_pos mem, ← map_id_without, ← same]
    rfl
  · next missing =>
    have absent : id ∉ c.ids := by
      intro mem
      obtain ⟨contract, held, same⟩ := List.mem_map.1 mem
      exact List.find?_eq_none.1 missing contract held (by simpa using same)
    rw [if_neg absent]
    rfl

/-- `hold` puts a contract in front, and the last ones go. -/
theorem ids_hold (c : Cache) (contract : Contract) :
    (c.hold contract).ids =
      (contract.id :: c.ids.filter (· ≠ contract.id)).take c.capacity := by
  rw [← map_id_without]
  simp [hold, ids, List.map_take]

theorem ids_evict (c : Cache) (id : ContractId) :
    (c.evict id).2.ids = c.ids.filter (· ≠ id) :=
  map_id_without c id

/-- `hold` leaves no more contracts at hand than `capacity`. -/
theorem length_held_hold_le (c : Cache) (contract : Contract) :
    (c.hold contract).held.length ≤ (c.hold contract).capacity :=
  List.length_take_le ..

end Cache

end LedgerScript
