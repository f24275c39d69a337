import LedgerScript.Contract.Id
import LedgerScript.Value.Basic

/-!
# Entry points and contexts

A contract is entered through functions of three fixed names, one for each kind of call
that a host makes.  Its context is what it can learn about the call that runs it.  A
contract that calls another one becomes the caller of that call, and a call inside a query
stays a query.
-/

namespace LedgerScript

/-! ## Entry points -/

/-- The functions through which a contract is entered. -/
inductive EntryPoint where
  /-- Runs once, when the contract is deployed. -/
  | init
  /-- Runs a call that may change state. -/
  | invoke
  /-- Runs a call that only looks. -/
  | query
  deriving DecidableEq, Repr

namespace EntryPoint

/-- All entry points in the order in which they are listed. -/
def all : List EntryPoint := [init, invoke, query]

/-- The name of the function. -/
def name : EntryPoint → String
  | init => "Init"
  | invoke => "Invoke"
  | query => "Query"

/-- The entry point of a name. -/
def ofName? (name : String) : Option EntryPoint :=
  all.find? (·.name = name)

theorem ofName?_name (e : EntryPoint) : ofName? e.name = some e := by
  cases e <;> decide

end EntryPoint

/-- The kinds of calls that a host makes. -/
inductive CallKind where
  | deploy
  | invoke
  | query
  deriving DecidableEq, Repr

namespace CallKind

/-- The entry point that a call of this kind runs. -/
def entryPoint : CallKind → EntryPoint
  | deploy => .init
  | invoke => .invoke
  | query => .query

/-- A query changes nothing. -/
def readOnly : CallKind → Bool
  | query => true
  | _ => false

/-- The name of the kind in reports. -/
def name : CallKind → String
  | deploy => "deploy"
  | invoke => "invoke"
  | query => "query"

end CallKind

/-! ## Contexts -/

/-- The context of one contract in a call. -/
structure Context where
  contract : ContractId
  /-- The namespace in which the contract reads and writes. -/
  space : Namespace
  caller : String
  kind : CallKind
  method? : Option String
  args : Value
  /-- The height of the chain. -/
  height : UInt64
  /-- How many contracts lie between this one and the host. -/
  depth : UInt16 := 0
  deriving DecidableEq

namespace Context

/-- The context in which a contract is deployed. -/
def forDeploy (contract : ContractId) (caller : String) (args : Value) (height : UInt64) :
    Context where
  contract := contract
  space := contract.space
  caller := caller
  kind := .deploy
  method? := none
  args := args
  height := height

/-- The context of a call that may change state. -/
def forInvoke (contract : ContractId) (caller method : String) (args : Value)
    (height : UInt64) : Context where
  contract := contract
  space := contract.space
  caller := caller
  kind := .invoke
  method? := some method
  args := args
  height := height

/-- The context of a call that only looks. -/
def forQuery (contract : ContractId) (caller : String) (args : Value) (height : UInt64) :
    Context where
  contract := contract
  space := contract.space
  caller := caller
  kind := .query
  method? := none
  args := args
  height := height

/-- The context of a contract that this one calls: the caller is this contract, and
`depth` is one more. -/
def child (c : Context) (callee : ContractId) (method : String) (args : Value) :
    Context where
  contract := callee
  space := callee.space
  caller := c.contract.hex
  kind := if c.kind.readOnly then .query else .invoke
  method? := some method
  args := args
  height := c.height
  depth := if c.depth = 65535 then c.depth else c.depth + 1

/-- The entry point to run; a contract called by another one is invoked. -/
def entryPoint (c : Context) : EntryPoint :=
  if c.depth > 0 then .invoke else c.kind.entryPoint

/-- The arguments of the entry point. -/
def entryArgs (c : Context) : List Value :=
  match c.entryPoint with
  | .invoke => [.str (c.method?.getD ""), c.args]
  | _ => [c.args]

end Context

end LedgerScript
