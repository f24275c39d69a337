import LedgerScript.Contract.Id
import Std.Data.ExtTreeSet

/-!
# Keys of the state

A key is a name inside a namespace.  Keys are ordered by their namespace and
then by their name, both by code points, which is the order of their bytes.
-/

namespace LedgerScript

/-- A set of namespaces, in rising order. -/
abbrev Spaces := Std.ExtTreeSet Namespace

/-- A place in the state. -/
structure StateKey where
  space : Namespace
  name : String
  deriving DecidableEq

namespace StateKey

instance : Ord StateKey := ⟨fun a b => (compare a.space b.space).then (compare a.name b.name)⟩

instance : Std.TransOrd StateKey :=
  inferInstanceAs (Std.TransCmp (compareLex (compareOn space) (compareOn name)))

instance : Std.LawfulEqOrd StateKey where
  eq_of_compare {a b} h := by
    have both : (compare a.space b.space).then (compare a.name b.name) = .eq := h
    rw [Ordering.then_eq_eq] at both
    cases a
    cases b
    simpa using And.intro (Std.LawfulEqOrd.eq_of_compare both.1)
      (Std.LawfulEqOrd.eq_of_compare both.2)

/-- What stands between a namespace and a name. -/
def separator : Char := '/'

/-- A key with its namespace and the `separator` in front. -/
def qualified (key : StateKey) : String :=
  key.space ++ separator.toString ++ key.name

/-- Names that begin like this belong to the host. -/
def reservedStart : String := "__"

/-- The name under which the host keeps the source of a deployed contract. -/
def codeName : String := "__CONTRACT_CODE_KEY__"

/-- The place of a contract's code record: `codeName` in its own namespace. -/
def code (id : ContractId) : StateKey :=
  ⟨id.space, codeName⟩

end StateKey

end LedgerScript
