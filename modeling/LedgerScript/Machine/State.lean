import LedgerScript.Contract.Basic
import LedgerScript.Contract.Context
import LedgerScript.Machine.Builtin
import LedgerScript.Machine.HostFunction
import LedgerScript.Machine.Variables
import LedgerScript.Metering.Meter
import LedgerScript.State.Access

/-!
# The state of a running call

A call runs over three things: the variables of the program that is running,
what the host keeps for the whole call, and whatever lies outside of it.  An
error ends the call and leaves all three as they were when it arose, because
what has been used by then is still reported.
-/

namespace LedgerScript

/-- What the host keeps for a call. -/
structure Host where
  meter : Meter
  view : View
  /-- A stack: the context of the contract that is running, then those of the
  contracts that wait for it, the nearest first. -/
  contexts : List Context
  /-- The namespaces of all contracts that have run. -/
  executed : Spaces
  /-- The lines that were logged, the last one first. -/
  logs : List String := []

namespace Host

/-- The host of a call that has not begun. -/
def new (meter : Meter) (view : View) (context : Context) : Host where
  meter := meter
  view := view
  contexts := [context]
  executed := Std.ExtTreeSet.ofList [context.space]

/-- The context of the contract that is running. -/
def current? (h : Host) : Option Context := h.contexts.head?

/-- The contexts of the contracts that wait for the running one. -/
def callers (h : Host) : List Context := h.contexts.tail

/-- The host with one context more, that of a contract called by the running one. -/
def entering (h : Host) (child : Context) : Host :=
  { h with
    contexts := child :: h.contexts
    executed := h.executed.insert child.space }

/-- The host with one context less. -/
def returning (h : Host) : Host := { h with contexts := h.contexts.tail }

end Host

/-- A running call; `σ` is the state of what lies outside of it. -/
structure Machine (σ : Type) where
  vars : Variables
  host : Host
  outside : σ

/-- What happens during a run, for those who watch it. -/
inductive Event where
  /-- The evaluation of a statement or an expression begins. -/
  | entered
  /-- The evaluation that was entered last is over. -/
  | left
  /-- A built-in function is called. -/
  | builtin (f : Builtin)
  /-- A host function is called. -/
  | hosted (f : HostFunction)
  /-- A contract called by another one begins to run. -/
  | called
  /-- A contract called by the running one has returned a value. -/
  | returned (callee : ContractId) (truthy : Bool)
  deriving DecidableEq

/-- What a call stands in: the committed state, the limits on what it may
store, how other contracts are found, and who watches.  A watcher keeps notes
in the outside state and changes nothing that the call can see. -/
structure Surroundings (σ : Type) where
  entries : Committed
  limits : StateLimits
  resolve : ContractId → EStateM ContractError σ Contract
  watch : Event → Variables → Host → σ → σ := fun _ _ _ outside => outside

/-- A part of a run. -/
abbrev Exec (σ : Type) := EStateM ContractError (Machine σ)

namespace Exec

variable {σ α : Type}

/-- Runs a change of the meter on that of the host. -/
def metered (x : Metered α) : Exec σ α := fun m =>
  match x m.host.meter with
  | .ok a meter => .ok a { m with host := { m.host with meter := meter } }
  | .error e meter => .error e { m with host := { m.host with meter := meter } }

/-- Runs a change of the view on that of the host. -/
def viewing (x : Viewing α) : Exec σ α := fun m =>
  match x m.host.view with
  | .ok a view => .ok a { m with host := { m.host with view := view } }
  | .error e view => .error e { m with host := { m.host with view := view } }

/-- A change of what lies outside. -/
def outside (x : EStateM ContractError σ α) : Exec σ α := fun m =>
  match x m.outside with
  | .ok a outside => .ok a { m with outside := outside }
  | .error e outside => .error e { m with outside := outside }

/-- A change of the variables. -/
def vars (f : Variables → Variables) : Exec σ Unit := fun m =>
  .ok () { m with vars := f m.vars }

/-- A change of what the host keeps. -/
def host (f : Host → Host) : Exec σ Unit := fun m =>
  .ok () { m with host := f m.host }

/-- The error of a host on which no contract runs, whose `contexts` are empty. -/
def noContext : ContractError := .invariantViolated "sandbox has no execution context"

/-- The context of the contract that is running. -/
def current : Exec σ Context := fun m =>
  match m.host.current? with
  | some c => .ok c m
  | none => .error noContext m

/-- Fails with a `ScriptFault`. -/
def fault (f : ScriptFault) : Exec σ α := fun m => .error (.script f) m

/-- A computation on values alone, which may fail with a `ScriptFault`. -/
def compute (x : Except ScriptFault α) : Exec σ α := fun m =>
  match x with
  | .ok a => .ok a m
  | .error f => .error (.script f) m

/-- Changes the value that a variable holds in its place, also when that fails on
the way. -/
def change (name : String) (held : Value) (x : EStateM ScriptFault Value Unit) :
    Exec σ Unit := fun m =>
  match x held with
  | .ok _ v => .ok () { m with vars := m.vars.update name v }
  | .error f v => .error (.script f) { m with vars := m.vars.update name v }

/-- Runs `x` and then `close`, also after an error in `x`. -/
def closing (x : Exec σ α) (close : Machine σ → Machine σ) : Exec σ α := fun m =>
  match x m with
  | .ok a m => .ok a (close m)
  | .error e m => .error e (close m)

/-- Lets the watcher know of an event: only `outside` changes. -/
def notice (s : Surroundings σ) (event : Event) (m : Machine σ) : Machine σ :=
  { m with outside := s.watch event m.vars m.host m.outside }

/-- Counts one step. -/
def step : Exec σ Unit := metered (Meter.chargeSteps 1)

/-- Counts the copy of a value, and the bytes passed over to find it. -/
def chargeCopy (v : Value) (scanned : Nat) : Exec σ Unit :=
  metered (Meter.chargeCopy (v.size + scanned))

/-- Counts the memory of a new value; scalars take none. -/
def chargeNew (v : Value) : Exec σ Unit :=
  match v with
  | .str _ | .list _ | .map _ => metered (Meter.chargeMemory v.size)
  | _ => return

/-- The variable of a name, else `undefinedVariable`. -/
def lookup (name : String) : Exec σ Slot := fun m =>
  match m.vars.find? name with
  | some slot => .ok slot m
  | none => .error (.script (.undefinedVariable name)) m

end Exec

end LedgerScript
