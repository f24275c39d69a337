import LedgerScript.Contract.Error

/-!
# Phases of a call

A call begins and ends idle, and moves from phase to phase in between.  The
phases that it has visited are reported with its result.
-/

namespace LedgerScript

/-- Where a call stands. -/
inductive Phase where
  | idle
  /-- The source is checked and compiled. -/
  | loading
  /-- The entry point runs. -/
  | executing
  /-- The pending writes are about to take effect. -/
  | committing
  /-- The pending writes are dropped. -/
  | discarding
  deriving DecidableEq, Repr

namespace Phase

/-- All phases. -/
def all : List Phase := [idle, loading, executing, committing, discarding]

/-- The name of a phase. -/
def name : Phase → String
  | idle => "Idle"
  | loading => "Loading"
  | executing => "Executing"
  | committing => "Committing"
  | discarding => "Discarding"

/-- The phase of a name. -/
def ofName? (name : String) : Option Phase :=
  all.find? (·.name = name)

theorem ofName?_name (p : Phase) : ofName? p.name = some p := by
  cases p <;> decide

/-- `p.leadsTo q`: a call may move from the phase `p` to `q`. -/
def leadsTo : Phase → Phase → Bool
  | idle, loading | idle, executing => true
  | loading, executing | loading, idle => true
  | executing, committing | executing, discarding => true
  | committing, idle | committing, discarding => true
  | discarding, idle => true
  | _, _ => false

end Phase

/-- The phases of one call so far. -/
structure Course where
  phase : Phase := .idle
  /-- The phases before, the nearest first. -/
  past : List Phase := []

namespace Course

/-- The phases in the order in which they were visited. -/
def visited (c : Course) : List Phase := (c.phase :: c.past).reverse

/-- Moves on if the phase `leadsTo` the next one, else `invariantViolated`. -/
def move (c : Course) (next : Phase) : Except ContractError Course :=
  if c.phase.leadsTo next then .ok ⟨next, c.phase :: c.past⟩
  else
    .error (.invariantViolated
      s!"illegal dispatch transition {c.phase.name} -> {next.name}")

/-- The phases of a call that is over: it ends `idle`. -/
def finish (c : Course) : List Phase :=
  if c.phase = .idle then c.visited else c.visited ++ [.idle]

end Course

end LedgerScript
