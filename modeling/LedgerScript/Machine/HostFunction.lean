/-!
# Host functions

The only means by which a script reaches beyond its own variables.
-/

namespace LedgerScript

/-- The functions that the host offers to scripts. -/
inductive HostFunction where
  /-- The value under a key, or null. -/
  | getState
  /-- Writes a value under a key. -/
  | putState
  /-- Deletes a key. -/
  | delState
  /-- Who called the contract. -/
  | caller
  /-- The identity of the contract, in digits. -/
  | contractId
  /-- The height of the chain. -/
  | blockHeight
  /-- Invokes another contract. -/
  | callContract
  /-- Writes a line for people to read. -/
  | log
  deriving DecidableEq, Repr

namespace HostFunction

/-- All host functions. -/
def all : List HostFunction :=
  [getState, putState, delState, caller, contractId, blockHeight, callContract, log]

/-- The name by which scripts call a host function. -/
def name : HostFunction → String
  | getState => "GetState"
  | putState => "PutState"
  | delState => "DelState"
  | caller => "Caller"
  | contractId => "ContractId"
  | blockHeight => "BlockHeight"
  | callContract => "CallContract"
  | log => "Log"

/-- The host function of a name. -/
def ofName? (name : String) : Option HostFunction :=
  all.find? (·.name = name)

theorem ofName?_name (f : HostFunction) : ofName? f.name = some f := by
  cases f <;> decide

theorem name_of_ofName? {name : String} {f : HostFunction} (h : ofName? name = some f) :
    name = f.name := by
  have named := List.find?_some h
  exact (of_decide_eq_true named).symm

/-- The steps that a call costs, whatever comes of it. -/
def cost : HostFunction → Nat
  | caller | contractId | blockHeight | log => 1
  | getState => 10
  | putState | delState => 20
  | callContract => 50

/-- How many arguments a call takes; `log` takes any number. -/
def arity? : HostFunction → Option Nat
  | caller | contractId | blockHeight => some 0
  | getState | delState => some 1
  | putState => some 2
  | callContract => some 3
  | log => none

end HostFunction

end LedgerScript
