import LedgerScript.Json.Decode
import LedgerScript.Json.Document
import LedgerScript.Metering.Budget
import LedgerScript.State.Access

/-!
# Budgets and limits as documents

Records of numbers, each under the name of what it limits or counts.
-/

namespace LedgerScript

open Json (Document Record RecordField required)

namespace Budget

/-- The fields of a budget that have been read. -/
structure Draft where
  steps : Option UInt64 := none
  memory : Option UInt64 := none
  depth : Option UInt16 := none

/-- How a budget is read. -/
def record : Record Draft Budget where
  type := "Budget"
  fields := [
    .of "max_steps" (fun _ => Json.readWord) Draft.steps fun d n => { d with steps := some n },
    .of "max_memory_bytes" (fun _ => Json.readWord) Draft.memory
      fun d n => { d with memory := some n },
    .of "max_call_depth" (fun _ => Json.readShort) Draft.depth
      fun d n => { d with depth := some n }]
  start := {}
  finish d := do
    let steps ← required "max_steps" d.steps
    let memory ← required "max_memory_bytes" d.memory
    let depth ← required "max_call_depth" d.depth
    return ⟨steps, memory, depth⟩

/-- A budget as a document. -/
def document (b : Budget) : Document :=
  .object [("max_steps", .int b.maxSteps.toNat), ("max_memory_bytes", .int b.maxMemory.toNat),
    ("max_call_depth", .int b.maxDepth.toNat)]

end Budget

namespace Usage

/-- The fields of a usage that have been read. -/
structure Draft where
  steps : Option UInt64 := none
  memory : Option UInt64 := none
  depth : Option UInt16 := none

/-- How a usage is read. -/
def record : Record Draft Usage where
  type := "MeterUsage"
  fields := [
    .of "steps" (fun _ => Json.readWord) Draft.steps fun d n => { d with steps := some n },
    .of "memory_bytes" (fun _ => Json.readWord) Draft.memory
      fun d n => { d with memory := some n },
    .of "max_depth" (fun _ => Json.readShort) Draft.depth fun d n => { d with depth := some n }]
  start := {}
  finish d := do
    let steps ← required "steps" d.steps
    let memory ← required "memory_bytes" d.memory
    let depth ← required "max_depth" d.depth
    return ⟨steps, memory, depth⟩

/-- A usage as a document. -/
def document (u : Usage) : Document :=
  .object [("steps", .int u.steps.toNat), ("memory_bytes", .int u.memory.toNat),
    ("max_depth", .int u.depth.toNat)]

end Usage

namespace StateLimits

/-- The fields of limits that have been read. -/
structure Draft where
  keyLength : Option UInt64 := none
  valueSize : Option UInt64 := none
  writes : Option UInt64 := none

/-- How limits are read. -/
def record : Record Draft StateLimits where
  type := "StateLimits"
  fields := [
    .of "max_key_length" (fun _ => Json.readLength) Draft.keyLength
      fun d n => { d with keyLength := some n },
    .of "max_value_size" (fun _ => Json.readLength) Draft.valueSize
      fun d n => { d with valueSize := some n },
    .of "max_state_writes" (fun _ => Json.readLength) Draft.writes
      fun d n => { d with writes := some n }]
  start := {}
  finish d := do
    let keyLength ← required "max_key_length" d.keyLength
    let valueSize ← required "max_value_size" d.valueSize
    let writes ← required "max_state_writes" d.writes
    return ⟨keyLength, valueSize, writes⟩

/-- Limits as a document. -/
def document (l : StateLimits) : Document :=
  .object [("max_key_length", .int l.maxKeyLength.toNat),
    ("max_value_size", .int l.maxValueSize.toNat),
    ("max_state_writes", .int l.maxWrites.toNat)]

end StateLimits

end LedgerScript
