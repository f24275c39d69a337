import LedgerScript.Contract.Context
import LedgerScript.Contract.ScriptFault
import LedgerScript.Metering.Budget
import LedgerScript.Script.ParseError

/-!
# Why a call fails

Loading a source, keeping state and running a script can each go wrong, and a
call reports which of them did.
-/

namespace LedgerScript

/-- Why a source is not loaded. -/
inductive LoadError where
  /-- The source is empty or longer than allowed. -/
  | invalidSize (size max : Nat)
  /-- The source is no text. -/
  | malformed (reason : String)
  /-- The source breaks the grammar. -/
  | compile (message : String) (line column : Nat)
  /-- The program uses a name that the host forbids. -/
  | forbiddenGlobal (name : String)
  /-- The source was stored for another language. -/
  | engineMismatch (stored running : String)
  deriving DecidableEq

namespace LoadError

/-- The wording of a load error. -/
def message : LoadError → String
  | invalidSize size max => s!"script size illegal: {size} bytes, max is {max} bytes"
  | malformed reason => s!"malformed script: {reason}"
  | compile message line column =>
    s!"compile error: {message} at line {line}, column {column}"
  | forbiddenGlobal name => s!"script references forbidden global `{name}`"
  | engineMismatch stored running =>
    s!"engine mismatch: code stored for `{stored}`, loader runs `{running}`"

/-- The name of the kind of a load error. -/
def kind : LoadError → String
  | invalidSize .. => "invalid_size"
  | malformed _ => "malformed"
  | compile .. => "compile"
  | forbiddenGlobal _ => "forbidden_global"
  | engineMismatch .. => "engine_mismatch"

/-- A source that breaks the grammar is not loaded. -/
def ofParseError (e : Script.ParseError) : LoadError :=
  .compile e.fault.message e.position.line e.position.column

end LoadError

/-- What can go wrong with committed state. -/
inductive StateError where
  | unavailable
  | commitRejected (reason : String)
  | corrupted (key reason : String)
  | other (reason : String)
  deriving DecidableEq

/-- The wording of a state error. -/
def StateError.message : StateError → String
  | unavailable => "state backend unavailable"
  | commitRejected reason => s!"commit rejected: {reason}"
  | corrupted key reason => s!"corrupted state at {key}: {reason}"
  | other reason => s!"state error: {reason}"

/-- Why a call fails. -/
inductive ContractError where
  | load (e : LoadError)
  | missingEntryPoint (entry : EntryPoint)
  | script (fault : ScriptFault)
  | exhausted (resource : Resource) (used limit : UInt64)
  /-- A script named a key that is not its own. -/
  | namespaceViolation (space : Namespace) (key : String)
  | alreadyDeployed (id : ContractId)
  | contractNotFound (id : ContractId)
  | state (e : StateError)
  /-- Committed state changed under a key that the call had read. -/
  | stateConflict (key : String)
  /-- A rule of the host was about to be broken. -/
  | invariantViolated (reason : String)
  deriving DecidableEq

namespace ContractError

/-- The wording of an error. -/
def message : ContractError → String
  | load e => s!"load error: {e.message}"
  | missingEntryPoint entry => s!"missing entry point: {entry.name}"
  | script fault => s!"script execution error: {fault.message}"
  | exhausted resource used limit =>
    s!"resource exhausted: {resource.name} used {used.toNat} > limit {limit.toNat}"
  | namespaceViolation space key =>
    s!"namespace violation: contract {space} accessed key " ++ Text.quoted key
  | alreadyDeployed id => s!"contract already deployed: {id.hex}"
  | contractNotFound id => s!"contract not found: {id.hex}"
  | state e => s!"state error: {e.message}"
  | stateConflict key => s!"state conflict on key {key}"
  | invariantViolated reason => s!"invariant violated: {reason}"

/-- The name of the kind of an error. -/
def kind : ContractError → String
  | load _ => "load_error"
  | missingEntryPoint _ => "missing_entry_point"
  | script _ => "script_execution_error"
  | exhausted .. => "resource_exhausted"
  | namespaceViolation .. => "namespace_violation"
  | alreadyDeployed _ => "already_deployed"
  | contractNotFound _ => "contract_not_found"
  | state _ => "state_error"
  | stateConflict _ => "state_conflict"
  | invariantViolated _ => "invariant_violated"

/-- A `namespaceViolation`: the script tried to leave its namespace. -/
def isSecurityFault : ContractError → Bool
  | namespaceViolation .. => true
  | _ => false

/-- The caller asked for something that cannot be done. -/
def isCallerError : ContractError → Bool
  | load _ | alreadyDeployed _ | contractNotFound _ => true
  | _ => false

/-- An `exhausted` resource: a larger budget could help. -/
def isExhaustion : ContractError → Bool
  | exhausted .. => true
  | _ => false

end ContractError

end LedgerScript
