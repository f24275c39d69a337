import LedgerScript.Contract.Error

/-!
# The meter of a call

Counts what a call uses and stops it at the first ceiling that it crosses.
Steps are compared once every `interval` of them, all else at once.  Counters
stay at the largest word instead of starting over.
-/

namespace LedgerScript

/-- A number of any size as a `UInt64`; what does not fit counts as the largest. -/
def saturate (n : Nat) : UInt64 :=
  UInt64.ofNat (min n 0xffffffffffffffff)

theorem toNat_saturate (n : Nat) : (saturate n).toNat = min n 0xffffffffffffffff := by
  have : min n 0xffffffffffffffff < 0x10000000000000000 := by omega
  simp only [saturate, UInt64.toNat_ofNat']
  exact Nat.mod_eq_of_lt this

/-- How deep evaluation may nest, over all frames and contracts of a call. -/
def maxNesting : Nat := 256

/-- How many bytes of values are copied for one step. -/
def bytesPerStep : Nat := 64

/-- How often a loop may turn, whatever its budget: every turn counts a step,
and no budget of words allows that many. -/
def maxTurns : Nat := 0x20000000000000000

/-- Counters of a call with their ceilings. -/
structure Meter where
  budget : Budget
  interval : UInt64
  steps : UInt64 := 0
  /-- Steps since the ceiling was last compared. -/
  unchecked : UInt64 := 0
  memory : UInt64 := 0
  depth : UInt16 := 0
  maxDepth : UInt16 := 0
  nesting : Nat := 0
  deriving DecidableEq

/-- Changes the counters, or finds a ceiling crossed. -/
abbrev Metered := EStateM ContractError Meter

namespace Meter

/-- A meter that has counted nothing; an interval of zero counts as one. -/
def new (budget : Budget) (interval : UInt64) : Meter where
  budget := budget
  interval := if interval = 0 then 1 else interval

/-- Counts `n` steps, and compares them with `maxSteps` once `interval` of them are
unchecked. -/
def chargeSteps (n : Nat) : Metered Unit := fun m =>
  let steps := saturate (m.steps.toNat + n)
  let unchecked := saturate (m.unchecked.toNat + n)
  if unchecked < m.interval then
    .ok () { m with steps := steps, unchecked := unchecked }
  else
    let m := { m with steps := steps, unchecked := 0 }
    if steps ≤ m.budget.maxSteps then .ok () m
    else .error (.exhausted .steps steps m.budget.maxSteps) m

/-- Counts the steps of copying `bytes` of a value. -/
def chargeCopy (bytes : Nat) : Metered Unit :=
  if bytes / bytesPerStep = 0 then return else chargeSteps (bytes / bytesPerStep)

/-- Counts memory, and compares it with `maxMemory`. -/
def chargeMemory (bytes : Nat) : Metered Unit := fun m =>
  let memory := saturate (m.memory.toNat + bytes)
  let m := { m with memory := memory }
  if memory ≤ m.budget.maxMemory then .ok () m
  else .error (.exhausted .memory memory m.budget.maxMemory) m

/-- Opens a function frame, unless that makes more than `maxDepth`. -/
def enterFrame : Metered Unit := fun m =>
  let depth := if m.depth = 65535 then m.depth else m.depth + 1
  if depth ≤ m.budget.maxDepth then
    .ok () { m with depth := depth, maxDepth := max m.maxDepth depth }
  else .error (.exhausted .callDepth depth.toUInt64 m.budget.maxDepth.toUInt64) m

/-- Closes a function frame. -/
def exitFrame (m : Meter) : Meter :=
  { m with depth := if m.depth = 0 then 0 else m.depth - 1 }

/-- The error of evaluation that would nest too deep. -/
def nestingExhausted : ContractError :=
  .exhausted .nesting (UInt64.ofNat (maxNesting + 1)) (UInt64.ofNat maxNesting)

/-- The error of a loop that would turn too often; unlike a ceiling that was
crossed it shows no use above its limit. -/
def turnsExhausted : ContractError :=
  .exhausted .steps (saturate maxTurns) (saturate maxTurns)

/-- Opens one level of evaluation, of which there are `maxNesting`. -/
def enterNesting : Metered Unit := fun m =>
  if m.nesting < maxNesting then .ok () { m with nesting := m.nesting + 1 }
  else .error nestingExhausted m

/-- Closes one level of evaluation. -/
def exitNesting (m : Meter) : Meter :=
  { m with nesting := m.nesting - 1 }

/-- The steps that are left below `maxSteps`. -/
def remaining (m : Meter) : UInt64 :=
  if m.steps ≤ m.budget.maxSteps then m.budget.maxSteps - m.steps else 0

/-- What has been used so far. -/
def usage (m : Meter) : Usage := ⟨m.steps, m.memory, m.maxDepth⟩

end Meter

end LedgerScript
