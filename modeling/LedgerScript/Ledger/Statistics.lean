import LedgerScript.Contract.Id
import LedgerScript.Ledger.Phase
import LedgerScript.Value.Basic

/-!
# Requests, reports and statistics

A host asks a ledger to deploy a source, to invoke a contract, or to query one.  It is
told how the call was settled, and can have the reports of all calls counted.
-/

namespace LedgerScript

/-! ## Requests -/

/-- A source is to be deployed. -/
structure DeployRequest where
  source : List UInt8
  args : Value
  caller : String := ""
  height : UInt64 := 0

/-- A contract is to run a method, which may change state. -/
structure InvokeRequest where
  contract : ContractId
  method : String
  args : Value
  caller : String := ""
  height : UInt64 := 0

/-- A contract is to answer and to change nothing. -/
structure QueryRequest where
  contract : ContractId
  args : Value
  caller : String := ""
  height : UInt64 := 0

/-! ## Reports -/

/-- How a call is settled. -/
inductive Settlement where
  /-- The entry point returned a truthy value, and its writes took effect. -/
  | committed (v : Value)
  /-- The entry point returned a value, and its writes were dropped. -/
  | discarded (v : Value)
  | failed (e : ContractError)

namespace Settlement

/-- The call was `committed`. -/
def success : Settlement → Bool
  | committed _ => true
  | _ => false

/-- What the entry point returned. -/
def value? : Settlement → Option Value
  | committed v | discarded v => some v
  | failed _ => none

/-- The error with which the call `failed`. -/
def error? : Settlement → Option ContractError
  | failed e => some e
  | _ => none

end Settlement

/-- What is reported of a call. -/
structure Report where
  settlement : Settlement
  usage : Usage
  trace : List Phase

/-! ## Statistics -/

/-- Counts over all calls. -/
structure Statistics where
  deploys : Nat := 0
  invokes : Nat := 0
  queries : Nat := 0
  /-- Deploys and invokes that committed, and queries that returned. -/
  successful : Nat := 0
  failed : Nat := 0
  /-- Calls whose error `isExhaustion`. -/
  exhausted : Nat := 0
  /-- Calls whose error `isSecurityFault`: they reached for a foreign namespace. -/
  incidents : Nat := 0
  steps : Nat := 0
  deriving DecidableEq, Repr

namespace Statistics

/-- One more for each report of which a condition holds. -/
def tick (n : Nat) (holds : Bool) : Nat := if holds then n + 1 else n

/-- Counts a report of a kind of calls. -/
def count (s : Statistics) (kind : CallKind) (r : Report) : Statistics :=
  let success := if kind.readOnly then r.settlement.error?.isNone else r.settlement.success
  { deploys := tick s.deploys (kind = .deploy)
    invokes := tick s.invokes (kind = .invoke)
    queries := tick s.queries (kind = .query)
    successful := tick s.successful success
    failed := tick s.failed !success
    exhausted := tick s.exhausted (r.settlement.error?.any (·.isExhaustion))
    incidents := tick s.incidents (r.settlement.error?.any (·.isSecurityFault))
    steps := s.steps + r.usage.steps.toNat }

end Statistics

end LedgerScript
