import LedgerScript.Json.Decode
import LedgerScript.Json.Document
import LedgerScript.Value.Basic

/-!
# Values as documents

Every value is written as one canonical document: in one line, with the
entries of maps in the order of their keys.  A document says a value when all
its numbers are 64-bit integers; of several entries of one key the last one
counts.
-/

namespace LedgerScript.Value

open Json (Read)

/-! ## Writing -/

mutual

/-- The document of a value. -/
def document : Value → Json.Document
  | null => .null
  | bool b => .bool b
  | int n => .int n.toInt
  | str s => .str s
  | list items => .list (documentsOfItems items)
  | map entries => .object (documentsOfEntries entries)

/-- The documents of items. -/
def documentsOfItems : List Value → List Json.Document
  | [] => []
  | item :: rest => item.document :: documentsOfItems rest

/-- The documents of entries under their keys. -/
def documentsOfEntries : List (String × Value) → List (String × Json.Document)
  | [] => []
  | (key, value) :: rest => (key, value.document) :: documentsOfEntries rest

end

/-- The canonical text of a value: its `document` in one line. -/
def canonical (v : Value) : String :=
  v.document.text

/-- A value as people read it: a text as it is, all else by `canonical`. -/
def shown : Value → String
  | str s => s
  | v => v.canonical

/-! ## Reading -/

/-- A number as a value, if it is an `Int64`. -/
def ofNumber? : Json.Number → Option Value
  | .natural n => if n < 0x8000000000000000 then some (int (Int64.ofNat n)) else none
  | .negative n => some (int (Int64.ofInt n))
  | .real _ => none

/-- A value of any kind, given how to read what follows an opening bracket or
brace.  A document outside the values is read to its end like all others. -/
def readWith (items entries : Read (Option Value)) : Read (Option Value) := do
  let b ← Json.peekValue
  if b = 0x6e then
    Json.skip
    Json.nullRest
    return some null
  else if b = 0x74 then
    Json.skip
    Json.trueRest
    return some (bool true)
  else if b = 0x66 then
    Json.skip
    Json.falseRest
    return some (bool false)
  else if b = 0x2d then
    Json.skip
    return ofNumber? (← Json.number false)
  else if (Json.digit? b).isSome then return ofNumber? (← Json.number true)
  else if b = 0x22 then
    Json.skip
    return some (str (← Json.stringRest))
  else if b = 0x5b then items
  else if b = 0x7b then entries
  else Json.failAhead .expectedValue

/-- The list of given items, if all of them are values. -/
def ofItems? (items : List (Option Value)) : Option Value :=
  (items.mapM id).map list

/-- The map of given entries, if all of them are values. -/
def ofEntries? (entries : List (String × Option Value)) : Option Value :=
  let entry (e : String × Option Value) : Option (String × Value) := e.2.map (Prod.mk e.1)
  (entries.mapM entry).map fun entries => map (Entries.ofList entries)

/-- A document, as the value that it says. -/
def readAny : (room : Nat) → Read (Option Value)
  | 0 => readWith (Json.failAhead .recursionLimit) (Json.failAhead .recursionLimit)
  | room + 1 =>
    readWith
      (do
        Json.skip
        let items ← Json.enclosed
          (do Json.itemsFrom (readAny room) true (← Json.turns)) Json.endList
        return ofItems? items)
      (do
        Json.skip
        let entries ← Json.enclosed
          (do Json.fieldsFrom (readAny room) true (← Json.turns)) Json.endObject
        return ofEntries? entries)

/-- A value, which the document must say, else `noAlternative`. -/
def read (room : Nat) : Read Value := do
  match ← readAny room with
  | some v => return v
  | none => Json.refuse (.noAlternative "Value")

/-- The value that a text says. -/
def ofJson (text : String) : Except Json.Error Value :=
  Json.decode read text

end LedgerScript.Value
