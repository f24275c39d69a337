import LedgerScript.Contract.Error
import LedgerScript.State.View

/-!
# The store

Committed state in memory.  A set of writes takes effect at once or not at
all, and a store can be told to refuse every commit.  Main statement: what a
key holds under an overlay of writes (`Committed.getElem?_overlay`).
-/

namespace LedgerScript

/-- `entries` after one change. -/
def Committed.change (entries : Committed) (key : StateKey) : WriteOp → Committed
  | .put bytes => entries.insert key bytes
  | .delete => entries.erase key

theorem Committed.getElem?_change (entries : Committed) (key other : StateKey) (op : WriteOp) :
    (entries.change key op)[other]? = if key = other then op.bytes? else entries[other]? := by
  cases op <;>
    simp [change, WriteOp.bytes?, Std.ExtTreeMap.getElem?_insert, Std.ExtTreeMap.getElem?_erase]

/-- Committed state with the writes `w` laid over it. -/
def Committed.overlay (entries : Committed) (w : WriteSet) : Committed :=
  w.toList.foldl (fun entries (key, op) => entries.change key op) entries

/-- `change` of other keys leaves a key alone. -/
theorem Committed.getElem?_foldl_change_of_forall_ne {key : StateKey}
    {changes : List (StateKey × WriteOp)} (ne : ∀ c ∈ changes, c.1 ≠ key)
    (entries : Committed) :
    (changes.foldl (fun entries (key, op) => entries.change key op) entries)[key]? =
      entries[key]? := by
  induction changes generalizing entries with
  | nil => rfl
  | cons c rest ih =>
    have first : c.1 ≠ key := ne c List.mem_cons_self
    rw [List.foldl_cons, ih fun d hd => ne d (List.mem_cons_of_mem c hd)]
    simp [getElem?_change, first]

/-- After `change` of distinct keys, the one of a key decides what it holds. -/
theorem Committed.getElem?_foldl_change {key : StateKey} {op : WriteOp}
    {changes : List (StateKey × WriteOp)} (distinct : changes.Pairwise fun a b => a.1 ≠ b.1)
    (mem : (key, op) ∈ changes) (entries : Committed) :
    (changes.foldl (fun entries (key, op) => entries.change key op) entries)[key]? =
      op.bytes? := by
  induction changes generalizing entries with
  | nil => contradiction
  | cons c rest ih =>
    obtain ⟨others, distinct⟩ := List.pairwise_cons.1 distinct
    rw [List.foldl_cons]
    rcases List.mem_cons.1 mem with rfl | mem
    · rw [getElem?_foldl_change_of_forall_ne fun d hd => (others d hd).symm]
      simp [getElem?_change]
    · exact ih distinct mem _

/-- Under `overlay` a key holds what the writes leave in it, and what it held before if
they do not touch it. -/
theorem Committed.getElem?_overlay (entries : Committed) (w : WriteSet) (key : StateKey) :
    (entries.overlay w)[key]? =
      match w[key]? with
      | some op => op.bytes?
      | none => entries[key]? := by
  split
  · next op h =>
    refine getElem?_foldl_change (w.distinct_keys_toList.imp fun h eq => ?_)
      (Std.ExtTreeMap.mem_toList_iff_getElem?_eq_some.2 h) entries
    exact h (Std.compare_eq_iff_eq.2 eq)
  · next h =>
    refine getElem?_foldl_change_of_forall_ne (fun c mem eq => ?_) entries
    obtain ⟨k, op⟩ := c
    subst eq
    rw [Std.ExtTreeMap.mem_toList_iff_getElem?_eq_some.1 mem] at h
    contradiction

/-- Committed state. -/
structure Store where
  entries : Committed := ∅
  /-- How many commits have succeeded. -/
  commits : Nat := 0
  /-- Every commit is refused. -/
  refusing : Bool := false

namespace Store

/-- The bytes under a key. -/
def get? (s : Store) (key : StateKey) : Option (List UInt8) :=
  s.entries[key]?

/-- Puts bytes under a key without a commit. -/
def insert (s : Store) (key : StateKey) (bytes : List UInt8) : Store :=
  { s with entries := s.entries.insert key bytes }

/-- Removes a key without a commit. -/
def remove (s : Store) (key : StateKey) : Store :=
  { s with entries := s.entries.erase key }

/-- The entries of one namespace, by name. -/
def namespaceEntries (s : Store) (space : Namespace) : List (String × List UInt8) :=
  (s.entries.toList.filter (·.1.space = space)).map fun (key, bytes) => (key.name, bytes)

/-- Makes all writes take effect, unless the store is `refusing`. -/
def commit (s : Store) (w : WriteSet) : Except StateError Store :=
  if s.refusing then .error (.commitRejected "store is refusing commits")
  else .ok { s with entries := s.entries.overlay w, commits := s.commits + 1 }

end Store

end LedgerScript
