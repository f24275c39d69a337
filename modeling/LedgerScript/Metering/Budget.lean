/-!
# Budgets

What a call may use, what it has used, and what it can run out of.
-/

namespace LedgerScript

/-- What a call can run out of. -/
inductive Resource where
  /-- Statements and expressions that are evaluated. -/
  | steps
  /-- Bytes of all values that are built. -/
  | memory
  /-- Function frames, those of nested calls included. -/
  | callDepth
  /-- Statements and expressions that are evaluated inside one another. -/
  | nesting
  /-- Keys that one call writes. -/
  | stateWrites
  deriving DecidableEq, Repr

namespace Resource

/-- The name of a resource in messages. -/
def name : Resource → String
  | steps => "steps"
  | memory => "memory"
  | callDepth => "call depth"
  | nesting => "evaluation nesting"
  | stateWrites => "state writes"

end Resource

/-- The ceilings of a call. -/
structure Budget where
  maxSteps : UInt64 := 1000000
  maxMemory : UInt64 := 8 * 1024 * 1024
  maxDepth : UInt16 := 64
  deriving DecidableEq, Repr

/-- What a call has used. -/
structure Usage where
  steps : UInt64 := 0
  memory : UInt64 := 0
  /-- The deepest frame. -/
  depth : UInt16 := 0
  deriving DecidableEq, Repr

end LedgerScript
