import LedgerScript.Value.Entries

/-!
# Values

What a script computes with and a state keeps: null, booleans, 64-bit
integers, text, lists and maps.  Maps hold their entries in the order of their
keys, so equal values look the same wherever they are written.
-/

namespace LedgerScript

/-- A value of the script language. -/
inductive Value where
  | null
  | bool (b : Bool)
  | int (n : Int64)
  | str (s : String)
  | list (items : List Value)
  | map (entries : List (String × Value))
  deriving Inhabited

namespace Value

/-- The kinds of values that scripts tell apart. -/
inductive Kind where
  | null
  | bool
  | int
  | string
  | list
  | map
  deriving DecidableEq, Repr

/-- The name of a kind in messages. -/
def Kind.name : Kind → String
  | null => "null"
  | bool => "bool"
  | int => "int"
  | string => "string"
  | list => "list"
  | map => "map"

/-- The kind of a value. -/
def kind : Value → Kind
  | null => .null
  | bool _ => .bool
  | int _ => .int
  | str _ => .string
  | list _ => .list
  | map _ => .map

/-- Null, false, zero and whatever is empty are falsy. -/
def truthy : Value → Bool
  | null => false
  | bool b => b
  | int n => n ≠ 0
  | str s => !s.isEmpty
  | list items => !items.isEmpty
  | map entries => !entries.isEmpty

/-- The text of a string value. -/
def str? : Value → Option String
  | str s => some s
  | _ => none

/-- The number of an integer value. -/
def int? : Value → Option Int64
  | int n => some n
  | _ => none

/-! ## Size and depth -/

mutual

/-- What a value counts for in memory, in bytes. -/
def size : Value → Nat
  | null | bool _ => 1
  | int _ => 8
  | str s => 16 + s.utf8ByteSize
  | list items => 16 + sizeOfItems items
  | map entries => 16 + sizeOfEntries entries

/-- What the items of a list count for. -/
def sizeOfItems : List Value → Nat
  | [] => 0
  | item :: rest => item.size + sizeOfItems rest

/-- What the entries of a map count for. -/
def sizeOfEntries : List (String × Value) → Nat
  | [] => 0
  | (key, value) :: rest => 16 + key.utf8ByteSize + value.size + sizeOfEntries rest

end

mutual

/-- How many lists and maps lie inside one another; a scalar has depth 0. -/
def depth : Value → Nat
  | list items => 1 + depthOfItems items
  | map entries => 1 + depthOfEntries entries
  | _ => 0

/-- The depth of the deepest item. -/
def depthOfItems : List Value → Nat
  | [] => 0
  | item :: rest => max item.depth (depthOfItems rest)

/-- The depth of the deepest entry. -/
def depthOfEntries : List (String × Value) → Nat
  | [] => 0
  | (_, value) :: rest => max value.depth (depthOfEntries rest)

end

/-! ## Equality -/

mutual

/-- Whether two values are the same, which is equality by `same_iff`. -/
def same : Value → Value → Bool
  | null, null => true
  | bool a, bool b => a = b
  | int a, int b => a = b
  | str a, str b => a = b
  | list as, list bs => sameItems as bs
  | map as, map bs => sameEntries as bs
  | _, _ => false

/-- Whether two lists hold the same items. -/
def sameItems : List Value → List Value → Bool
  | [], [] => true
  | a :: as, b :: bs => a.same b && sameItems as bs
  | _, _ => false

/-- Whether two maps hold the same entries. -/
def sameEntries : List (String × Value) → List (String × Value) → Bool
  | [], [] => true
  | (j, a) :: as, (k, b) :: bs => decide (j = k) && a.same b && sameEntries as bs
  | _, _ => false

end

mutual

theorem same_iff : ∀ a b : Value, a.same b = true ↔ a = b
  | null, b => by cases b <;> simp [same]
  | bool _, b => by cases b <;> simp [same]
  | int _, b => by cases b <;> simp [same]
  | str _, b => by cases b <;> simp [same]
  | list as, b => by
    cases b <;> simp [same]
    next bs => exact sameItems_iff as bs
  | map as, b => by
    cases b <;> simp [same]
    next bs => exact sameEntries_iff as bs

theorem sameItems_iff : ∀ as bs : List Value, sameItems as bs = true ↔ as = bs
  | [], bs => by cases bs <;> simp [sameItems]
  | a :: as, bs => by
    cases bs with
    | nil => simp [sameItems]
    | cons b bs => simp [sameItems, same_iff a b, sameItems_iff as bs]

theorem sameEntries_iff : ∀ as bs : List (String × Value), sameEntries as bs = true ↔ as = bs
  | [], bs => by cases bs <;> simp [sameEntries]
  | (j, a) :: as, bs => by
    cases bs with
    | nil => simp [sameEntries]
    | cons b bs =>
      obtain ⟨k, b⟩ := b
      simp [sameEntries, same_iff a b, sameEntries_iff as bs, and_assoc]

end

instance : DecidableEq Value := fun a b =>
  if h : a.same b = true then .isTrue ((same_iff a b).1 h)
  else .isFalse fun e => h ((same_iff a b).2 e)

/-! ## Sorted maps -/

mutual

/-- Every map inside the value holds its entries in the order of their keys. -/
def Sorted : Value → Prop
  | list items => SortedItems items
  | map entries => Entries.Sorted entries ∧ SortedEntries entries
  | _ => True

/-- Every item is sorted inside. -/
def SortedItems : List Value → Prop
  | [] => True
  | item :: rest => item.Sorted ∧ SortedItems rest

/-- The value of every entry is sorted inside. -/
def SortedEntries : List (String × Value) → Prop
  | [] => True
  | (_, value) :: rest => value.Sorted ∧ SortedEntries rest

end

end Value

end LedgerScript
