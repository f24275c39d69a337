import LedgerScript.Ledger.Call
import LedgerScript.Value.Json
import LedgerScript.Wire.State

/-!
# Requests as documents
-/

namespace LedgerScript

open Json (Document Record RecordField required)

/-- The fields of any request that have been read. -/
structure RequestDraft where
  caller : Option String := none
  source : Option (List UInt8) := none
  contract : Option ContractId := none
  method : Option String := none
  args : Option Value := none
  height : Option UInt64 := none

namespace RequestDraft

/-- Who asks. -/
def callerField : RecordField RequestDraft :=
  .of "caller" (fun _ => Json.readString) caller fun d s => { d with caller := some s }

/-- What is to be deployed. -/
def sourceField : RecordField RequestDraft :=
  .of "source" Json.readBytes source fun d s => { d with source := some s }

/-- Which contract is asked. -/
def contractField : RecordField RequestDraft :=
  .of "contract_id" ContractId.read contract fun d id => { d with contract := some id }

/-- Which method is to run. -/
def methodField : RecordField RequestDraft :=
  .of "method" (fun _ => Json.readString) method fun d s => { d with method := some s }

/-- What the entry point gets. -/
def argsField : RecordField RequestDraft :=
  .of "args" Value.read args fun d v => { d with args := some v }

/-- The height of the chain. -/
def heightField : RecordField RequestDraft :=
  .of "block_height" (fun _ => Json.readWord) height fun d n => { d with height := some n }

end RequestDraft

open RequestDraft

namespace DeployRequest

/-- How a request is read. -/
def record : Record RequestDraft DeployRequest where
  type := "DeployRequest"
  fields := [callerField, sourceField, argsField, heightField]
  start := {}
  finish d := do
    let caller ← required "caller" d.caller
    let source ← required "source" d.source
    let args ← required "args" d.args
    let height ← required "block_height" d.height
    return { source, args, caller, height }

/-- A request as a document. -/
def document (r : DeployRequest) : Document :=
  .object [("caller", .str r.caller), ("source", bytesDocument r.source),
    ("args", r.args.document), ("block_height", .int r.height.toNat)]

end DeployRequest

namespace InvokeRequest

/-- How a request is read. -/
def record : Record RequestDraft InvokeRequest where
  type := "InvokeRequest"
  fields := [callerField, contractField, methodField, argsField, heightField]
  start := {}
  finish d := do
    let caller ← required "caller" d.caller
    let contract ← required "contract_id" d.contract
    let method ← required "method" d.method
    let args ← required "args" d.args
    let height ← required "block_height" d.height
    return { contract, method, args, caller, height }

/-- A request as a document. -/
def document (r : InvokeRequest) : Document :=
  .object [("caller", .str r.caller), ("contract_id", r.contract.document),
    ("method", .str r.method), ("args", r.args.document), ("block_height", .int r.height.toNat)]

end InvokeRequest

namespace QueryRequest

/-- How a request is read. -/
def record : Record RequestDraft QueryRequest where
  type := "QueryRequest"
  fields := [callerField, contractField, argsField, heightField]
  start := {}
  finish d := do
    let caller ← required "caller" d.caller
    let contract ← required "contract_id" d.contract
    let args ← required "args" d.args
    let height ← required "block_height" d.height
    return { contract, args, caller, height }

/-- A request as a document. -/
def document (r : QueryRequest) : Document :=
  .object [("caller", .str r.caller), ("contract_id", r.contract.document),
    ("args", r.args.document), ("block_height", .int r.height.toNat)]

end QueryRequest

end LedgerScript
