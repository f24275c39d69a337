import LedgerScript.Contract.ScriptFault

/-!
# Paths into values

A path selects a place inside a value, one key at a time.  Reading a path
passes through maps, lists and texts; writing a path changes one entry of a
map or one item of a list in its place and nothing else.
-/

namespace LedgerScript

/-- One key of a path: a name after a dot, or a value between brackets. -/
inductive PathKey where
  | name (s : String)
  | value (v : Value)
  deriving DecidableEq

namespace PathKey

/-- The key of a map that a path key means; a number means its digits. -/
def mapKey : PathKey → Except ScriptFault String
  | name s => .ok s
  | value (.str s) => .ok s
  | value (.int n) => .ok (toString n.toInt)
  | value v => .error (.noMapKey v.kind)

end PathKey

namespace Value

/-! ## Reading -/

/-- The position that a number means, if it is not negative. -/
def position? (n : Int64) : Option Nat :=
  if n < 0 then none else some n.toInt.toNat

/-- What stands behind a dot. -/
def member (name : String) : Value → Except ScriptFault Value
  | map entries => .ok ((Entries.get? entries name).getD null)
  | str s =>
    if name = "length" then .ok (int (Int64.ofNat s.length))
    else .error (.noProperty name .string)
  | list items =>
    if name = "length" then .ok (int (Int64.ofNat items.length))
    else .error (.noProperty name .list)
  | v => .error (.noProperty name v.kind)

/-- What stands between brackets; a missing item, entry or character is
null. -/
def item : Value → Value → Except ScriptFault Value
  | list items, int n => .ok (((position? n).bind (items[·]?)).getD null)
  | map entries, str key => .ok ((Entries.get? entries key).getD null)
  | map entries, int n => .ok ((Entries.get? entries (toString n.toInt)).getD null)
  | str s, int n =>
    .ok ((((position? n).bind (s.toList[·]?)).map fun c => str c.toString).getD null)
  | base, key => .error (.cannotIndex base.kind key.kind)

/-- What one key selects. -/
def select (v : Value) : PathKey → Except ScriptFault Value
  | .name s => v.member s
  | .value key => v.item key

/-- The bytes that a look into a value passes over. -/
def scanned : Value → Nat
  | str s => s.utf8ByteSize
  | _ => 0

/-- What a path selects, and the bytes passed over on the way. -/
def readPath (v : Value) : List PathKey → Except ScriptFault (Value × Nat)
  | [] => .ok (v, 0)
  | key :: rest => do
    let (found, bytes) ← (← v.select key).readPath rest
    return (found, v.scanned + bytes)

/-! ## Writing -/

/-- A change of a value in its place.  After a fault the value is as the change
has left it. -/
abbrev Change := EStateM ScriptFault Value Unit

/-- Changes a part of a value in its place, given what the whole value is with
another part. -/
def Change.within (x : Change) (whole : Value → Value) (part : Value) :
    EStateM.Result ScriptFault Value Unit :=
  match x part with
  | .ok _ part => .ok () (whole part)
  | .error f part => .error f (whole part)

/-- Puts `new` in the place that a path selects.  Only the last key of a path
may be new to its map. -/
def writePath (new : Value) : List PathKey → Change
  | [] => fun _ => .ok () new
  | key :: rest => fun target =>
    match target, key with
    | map entries, key =>
      match key.mapKey with
      | .error f => .error f target
      | .ok name =>
        if rest.isEmpty then .ok () (map (Entries.put name new entries))
        else
          match Entries.get? entries name with
          | none => .error (.missingKey name) target
          | some child =>
            (writePath new rest).within (fun child => map (Entries.set name child entries)) child
    | list items, .value (int n) =>
      match (position? n).bind fun i => items[i]?.map (Prod.mk i) with
      | none => .error (.indexOutOfBounds n items.length) target
      | some (i, child) =>
        (writePath new rest).within (fun child => list (items.set i child)) child
    | list _, _ => .error .indexNotInt target
    | v, _ => .error (.cannotSet v.kind) target

end Value

end LedgerScript
