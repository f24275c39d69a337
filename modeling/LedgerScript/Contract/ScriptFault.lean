import LedgerScript.Contract.Id
import LedgerScript.Json.Error
import LedgerScript.Script.Program
import LedgerScript.State.Key
import LedgerScript.Value.Basic

/-!
# Faults of scripts

What a running script can do wrong.  A fault ends the call, and no script can
catch it.
-/

namespace LedgerScript

/-- A fault that a script is to blame for. -/
inductive ScriptFault where
  | undefinedFunction (name : String)
  | undefinedVariable (name : String)
  /-- The script threw a value, given as people read it. -/
  | uncaught (shown : String)
  | constantAssigned (name : String)
  | integerOverflow
  | divisionByZero
  | cannotNegate (kind : Value.Kind)
  | unsupportedOperands (op : Script.BinaryOp) (left right : Value.Kind)
  | noProperty (name : String) (kind : Value.Kind)
  | cannotIndex (base key : Value.Kind)
  | noMapKey (kind : Value.Kind)
  | missingKey (key : String)
  | indexNotInt
  | indexOutOfBounds (index : Int64) (length : Nat)
  | cannotSet (kind : Value.Kind)
  | wrongArgumentCount (name : String) (wanted given : Nat)
  | notString (binding : String) (kind : Value.Kind)
  | unknownBinding (name : String)
  | lenUnsupported (kind : Value.Kind)
  | intUnreadable (text : String)
  | intUnsupported (kind : Value.Kind)
  | keysUnsupported (kind : Value.Kind)
  | containsUnsupported (whole part : Value.Kind)
  | pushUnsupported (kind : Value.Kind)
  | undecodable (reason : Json.Error)
  | decodeUnsupported (kind : Value.Kind)
  | tooDeep (context : String) (depth max : Nat)
  | valueTooLarge (size max : Nat)
  | emptyKey
  | keyTooLong (length max : Nat)
  | separatorInKey (key : String)
  | badContractId (target : String)
  | reentrant (callee : ContractId)
  /-- A fault in the words of whoever reports it. -/
  | reported (text : String)
  deriving DecidableEq

/-- The wording of a fault. -/
def ScriptFault.message : ScriptFault → String
  | undefinedFunction name => s!"undefined function `{name}`"
  | undefinedVariable name => s!"undefined variable `{name}`"
  | uncaught shown => s!"uncaught exception: {shown}"
  | constantAssigned name => s!"assignment to constant `{name}`"
  | integerOverflow => "integer overflow"
  | divisionByZero => "division by zero"
  | cannotNegate kind => s!"cannot negate {kind.name}"
  | unsupportedOperands op left right =>
    s!"unsupported operands for {op.label}: {left.name} and {right.name}"
  | noProperty name kind => s!"cannot read property `{name}` of {kind.name}"
  | cannotIndex base key => s!"cannot index {base.name} with {key.name}"
  | noMapKey kind => s!"cannot use {kind.name} as a map key"
  | missingKey key => s!"cannot set property of missing key `{key}`"
  | indexNotInt => "list index must be an int"
  | indexOutOfBounds index length =>
    s!"list index {index.toInt} out of bounds for length {length}"
  | cannotSet kind => s!"cannot set property on {kind.name}"
  | wrongArgumentCount name wanted given =>
    s!"{name}() expects {wanted} argument(s), got {given}"
  | notString binding kind => s!"{binding}() expects a string, got {kind.name}"
  | unknownBinding name => s!"unknown host binding `{name}`"
  | lenUnsupported kind => s!"len() not supported for {kind.name}"
  | intUnreadable text => "int(): cannot parse " ++ Text.quoted text
  | intUnsupported kind => s!"int() not supported for {kind.name}"
  | keysUnsupported kind => s!"keys() expects a map, got {kind.name}"
  | containsUnsupported whole part =>
    s!"contains() not supported for {whole.name} and {part.name}"
  | pushUnsupported kind => s!"push() expects a list, got {kind.name}"
  | undecodable reason => "jsonDecode(): " ++ reason.message
  | decodeUnsupported kind => s!"jsonDecode() expects a string, got {kind.name}"
  | tooDeep context depth max =>
    s!"{context}: value nested {depth} levels deep, max is {max}"
  | valueTooLarge size max => s!"state value too large: {size} bytes, max is {max}"
  | emptyKey => "state key must not be empty"
  | keyTooLong length max => s!"state key too long: {length} bytes, max is {max}"
  | separatorInKey key =>
    "invalid state key " ++ Text.quoted key ++ ": `"
      ++ StateKey.separator.toString ++ "` is reserved for contract ids"
  | badContractId target =>
    "CallContract: invalid contract id " ++ Text.quoted target
  | reentrant callee => "CallContract: reentrant call into " ++ callee.hex
  | reported text => text

end LedgerScript
