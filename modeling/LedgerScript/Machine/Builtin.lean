import LedgerScript.State.Access
import LedgerScript.Text.Integer

/-!
# Built-in functions

Functions that every script may call.  They depend on their arguments alone,
so none of them can look at the host.
-/

namespace LedgerScript

/-- The built-in functions. -/
inductive Builtin where
  | len
  | str
  | int
  | keys
  | contains
  | push
  | jsonEncode
  | jsonDecode
  deriving DecidableEq, Repr

namespace Builtin

/-- All built-in functions. -/
def all : List Builtin := [len, str, int, keys, contains, push, jsonEncode, jsonDecode]

/-- The name by which scripts call a built-in function. -/
def name : Builtin → String
  | len => "len"
  | str => "str"
  | int => "int"
  | keys => "keys"
  | contains => "contains"
  | push => "push"
  | jsonEncode => "jsonEncode"
  | jsonDecode => "jsonDecode"

/-- The built-in function of a name. -/
def ofName? (name : String) : Option Builtin :=
  all.find? (·.name = name)

theorem ofName?_name (b : Builtin) : ofName? b.name = some b := by
  cases b <;> decide

theorem name_of_ofName? {name : String} {b : Builtin} (h : ofName? name = some b) :
    name = b.name := by
  have named := List.find?_some h
  exact (of_decide_eq_true named).symm

/-! ## What they compute -/

/-- Characters of a text, items of a list or entries of a map. -/
def length : Value → Except ScriptFault Value
  | .str s => .ok (.int (Int64.ofNat s.length))
  | .list items => .ok (.int (Int64.ofNat items.length))
  | .map entries => .ok (.int (Int64.ofNat entries.length))
  | v => .error (.lenUnsupported v.kind)

/-- The number that a value says; a text may have blanks around its digits. -/
def toInt : Value → Except ScriptFault Value
  | .int n => .ok (.int n)
  | .bool b => .ok (.int (if b then 1 else 0))
  | .null => .ok (.int 0)
  | .str s =>
    match Text.readInt64 (Text.trim s).toList with
    | .ok n => .ok (.int n)
    | .error _ => .error (.intUnreadable s)
  | v => .error (.intUnsupported v.kind)

/-- The keys of a map in their order. -/
def keysOf : Value → Except ScriptFault Value
  | .map entries => .ok (.list (entries.map fun (key, _) => .str key))
  | v => .error (.keysUnsupported v.kind)

/-- Whether `part` begins at some place of a text. -/
def occurs (part : List Char) : List Char → Bool
  | [] => part.isEmpty
  | c :: rest => part.isPrefixOf (c :: rest) || occurs part rest

/-- Whether a list has an item, a map a key, or a text a part. -/
def holds : Value → Value → Except ScriptFault Value
  | .list items, item => .ok (.bool (items.any (· = item)))
  | .map entries, .str key => .ok (.bool (Entries.get? entries key).isSome)
  | .str s, .str part => .ok (.bool (occurs part.toList s.toList))
  | whole, part => .error (.containsUnsupported whole.kind part.kind)

/-- A list with one more item at its end. -/
def pushed : Value → Value → Except ScriptFault Value
  | .list items, item => .ok (.list (items ++ [item]))
  | v, _ => .error (.pushUnsupported v.kind)

/-- The canonical text of a value. -/
def encoded (v : Value) : Except ScriptFault Value := do
  checkDepth v "jsonEncode()"
  return .str v.canonical

/-- The value that a text says. -/
def decoded : Value → Except ScriptFault Value
  | .str text => do
    match Value.ofJson text with
    | .error e => throw (.undecodable e)
    | .ok v =>
      checkDepth v "jsonDecode()"
      return v
  | v => .error (.decodeUnsupported v.kind)

/-! ## Calls -/

/-- Applies `f` to the one argument. -/
def ofOne (b : Builtin) (f : Value → Except ScriptFault Value) :
    List Value → Except ScriptFault Value
  | [v] => f v
  | args => .error (.wrongArgumentCount b.name 1 args.length)

/-- Applies `f` to the two arguments. -/
def ofTwo (b : Builtin) (f : Value → Value → Except ScriptFault Value) :
    List Value → Except ScriptFault Value
  | [v, w] => f v w
  | args => .error (.wrongArgumentCount b.name 2 args.length)

/-- Calls a built-in function. -/
def apply (b : Builtin) : List Value → Except ScriptFault Value :=
  match b with
  | len => b.ofOne length
  | str => b.ofOne fun v => .ok (.str v.shown)
  | int => b.ofOne toInt
  | keys => b.ofOne keysOf
  | contains => b.ofTwo holds
  | push => b.ofTwo pushed
  | jsonEncode => b.ofOne encoded
  | jsonDecode => b.ofOne decoded

end Builtin

end LedgerScript
