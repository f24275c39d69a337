import LedgerScript.Json.Decode
import LedgerScript.Json.Document
import LedgerScript.Ledger.Phase
import LedgerScript.Metering.Budget

/-!
# Names as documents

Choices without content are written by their names.
-/

namespace LedgerScript

open Json (Document Read)

namespace EntryPoint

/-- Reads an entry point. -/
def read : (room : Nat) → Read EntryPoint :=
  Json.readName (all.map fun e => (e.name, e))

/-- An entry point as a document. -/
def document (e : EntryPoint) : Document := .str e.name

end EntryPoint

namespace CallKind

/-- The name of a kind in documents. -/
def wireName : CallKind → String
  | deploy => "Deploy"
  | invoke => "Invoke"
  | query => "Query"

/-- The kind of a name in documents. -/
def ofWireName? (name : String) : Option CallKind :=
  [deploy, invoke, query].find? (·.wireName = name)

/-- Reads a kind of calls. -/
def read : (room : Nat) → Read CallKind :=
  Json.readName ([deploy, invoke, query].map fun k => (k.wireName, k))

/-- A kind of calls as a document. -/
def document (k : CallKind) : Document := .str k.wireName

end CallKind

namespace Resource

/-- The name of a resource in documents. -/
def wireName : Resource → String
  | steps => "Steps"
  | memory => "Memory"
  | callDepth => "CallDepth"
  | nesting => "Nesting"
  | stateWrites => "StateWrites"

/-- All resources. -/
def all : List Resource := [steps, memory, callDepth, nesting, stateWrites]

/-- Reads a resource. -/
def read : (room : Nat) → Read Resource :=
  Json.readName (all.map fun r => (r.wireName, r))

/-- A resource as a document. -/
def document (r : Resource) : Document := .str r.wireName

end Resource

namespace Phase

/-- Reads a phase. -/
def read : (room : Nat) → Read Phase :=
  Json.readName (all.map fun p => (p.name, p))

/-- A phase as a document. -/
def document (p : Phase) : Document := .str p.name

end Phase

end LedgerScript
