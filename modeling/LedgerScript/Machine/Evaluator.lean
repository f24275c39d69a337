import LedgerScript.Machine.Operator
import LedgerScript.Machine.Path
import LedgerScript.Machine.State

/-!
# Evaluation

Every evaluation of a statement or an expression opens one level and counts
one step.  Levels are what the recursion runs on: the evaluator of a level is
made from the evaluator of the level below, which evaluates all the parts, the
bodies of the functions that are called, and the contracts that are called.

One entry point of a contract runs under a fresh meter and a fresh host (`execute`).  What
it wrote and read is handed out in its view, whether it succeeded or not; nothing is
committed here.
-/

namespace LedgerScript

open Script (Program Expr Stmt Accessor Place Binding Function AssignOp LogicalOp)

/-- How a statement ends. -/
inductive Flow where
  /-- The next statement follows. -/
  | onward
  /-- The innermost loop is left. -/
  | leave
  /-- The innermost loop turns again. -/
  | again
  /-- The function is left with a result. -/
  | result (v : Value)
  deriving DecidableEq

/-- Evaluation of a program's parts at one level. -/
structure Evaluator (σ : Type) where
  eval : Program → Expr → Exec σ Value
  exec : Program → Stmt → Exec σ Flow

namespace Evaluator

variable {σ : Type}

/-! ## Sequences -/

/-- The values of expressions, from the left to the right. -/
def evalAll (below : Evaluator σ) (p : Program) : List Expr → Exec σ (List Value)
  | [] => return []
  | item :: rest => do
    let v ← below.eval p item
    return v :: (← below.evalAll p rest)

/-- The values of map entries under their keys. -/
def evalEntries (below : Evaluator σ) (p : Program) :
    List (String × Expr) → Exec σ (List (String × Value))
  | [] => return []
  | (key, item) :: rest => do
    let v ← below.eval p item
    return (key, v) :: (← below.evalEntries p rest)

/-- The keys of a path. -/
def evalKeys (below : Evaluator σ) (p : Program) : List Accessor → Exec σ (List PathKey)
  | [] => return []
  | .member name :: rest => return .name name :: (← below.evalKeys p rest)
  | .index key :: rest => do
    let v ← below.eval p key
    return .value v :: (← below.evalKeys p rest)

/-- The value that a declaration or a return gives; without an expression it is `null`. -/
def evalInit (below : Evaluator σ) (p : Program) : Option Expr → Exec σ Value
  | none => return .null
  | some e => below.eval p e

/-- Statements one after the other, until one ends otherwise than `onward`. -/
def execAll (below : Evaluator σ) (p : Program) : List Stmt → Exec σ Flow
  | [] => return .onward
  | stmt :: rest => do
    match ← below.exec p stmt with
    | .onward => below.execAll p rest
    | flow => return flow

/-- Statements in a scope of their own. -/
def execBlock (below : Evaluator σ) (p : Program) (body : List Stmt) : Exec σ Flow := do
  Exec.vars Variables.pushScope
  Exec.closing (below.execAll p body) fun m => { m with vars := m.vars.popScope }

/-- Turns of a loop, of which there are `n` at most, else `turnsExhausted`. -/
def turn (below : Evaluator σ) (p : Program) (condition : Expr) (body : List Stmt) :
    Nat → Exec σ Flow
  | 0 => throw Meter.turnsExhausted
  | n + 1 => do
    if (← below.eval p condition).truthy then
      match ← below.execBlock p body with
      | .leave => return .onward
      | .result v => return .result v
      | _ => below.turn p condition body n
    else return .onward

/-! ## Functions -/

/-- Calls a function of the program; one that ends without `result` gives `null`. -/
def callFunction (below : Evaluator σ) (p : Program) (f : Function) (args : List Value) :
    Exec σ Value := do
  Exec.metered Meter.enterFrame
  Exec.vars (·.pushFrame (Variables.bindArgs ∅ f.params args))
  let flow ← Exec.closing (below.execAll p f.body) fun m =>
    { m with
      vars := m.vars.popFrame
      host := { m.host with meter := m.host.meter.exitFrame } }
  match flow with
  | .result v => return v
  | _ => return .null

/-- Evaluates the bindings of the top level in their order. -/
def initGlobals (below : Evaluator σ) (p : Program) : List Binding → Exec σ Unit
  | [] => return
  | b :: rest => do
    Exec.step
    let v ← below.evalInit p b.init
    Exec.vars (·.declareGlobal b.name ⟨v, b.constant⟩)
    below.initGlobals p rest

/-- Runs a program: its top level, then the function of a name, else `undefinedFunction`. -/
def run (below : Evaluator σ) (p : Program) (name : String) (args : List Value) :
    Exec σ Value := do
  below.initGlobals p p.globals
  match p.functions[name]? with
  | some f => below.callFunction p f args
  | none => Exec.fault (.undefinedFunction name)

/-! ## The host -/

/-- Runs a called contract with variables of its own and, by `entering`, its context on
top of the others.  In any case `returning` takes one context off afterwards, and the
caller's variables come back. -/
def runContract (s : Surroundings σ) (below : Evaluator σ) (contract : Contract)
    (child : Context) : Exec σ Value := fun before =>
  Exec.closing
    (below.run contract.program EntryPoint.invoke.name child.entryArgs)
    (fun m => { m with vars := before.vars, host := m.host.returning })
    (Exec.notice s .called
      { before with vars := {}, host := before.host.entering child })

/-- Invokes another contract.  One that runs or waits is not entered again (`reentrant`),
and `rollback` takes back what the callee wrote unless it returns a truthy value. -/
def callContract (s : Surroundings σ) (below : Evaluator σ) (target method : String)
    (args : Value) : Exec σ Value := do
  match ContractId.ofHex target with
  | .error _ => Exec.fault (.badContractId target)
  | .ok callee =>
    let host := (← get).host
    if host.contexts.any (·.contract = callee) then Exec.fault (.reentrant callee)
    else
      let contract ← Exec.outside (s.resolve callee)
      if contract.declares .invoke then
        let child := (← Exec.current).child callee method args
        let v ← below.runContract s contract child
        modify (Exec.notice s (.returned callee v.truthy))
        if !v.truthy then
          Exec.host fun h => { h with view := h.view.rollback host.view.writes }
        return v
      else throw (.missingEntryPoint .invoke)

/-- A text that a host function wants, else `notString`. -/
def wantText (f : HostFunction) (v : Value) : Exec σ String :=
  match v.str? with
  | some s => return s
  | none => Exec.fault (.notString f.name v.kind)

/-- Writes a line for people to read, on behalf of the running contract. -/
def writeLog (args : List Value) : Exec σ Value := do
  let line := " ".intercalate (args.map Value.shown)
  Exec.metered (Meter.chargeMemory line.utf8ByteSize)
  let _ ← Exec.current
  Exec.host fun h => { h with logs := line :: h.logs }
  return .null

/-- Calls a host function, once its `cost` is charged. -/
def callHost (s : Surroundings σ) (below : Evaluator σ) (f : HostFunction)
    (args : List Value) : Exec σ Value := do
  Exec.metered (Meter.chargeSteps f.cost)
  match f, args with
  | .getState, [key] =>
    let key ← wantText f key
    let context ← Exec.current
    let v ← Exec.viewing (Access.get s.entries s.limits context.space key)
    Exec.metered (Meter.chargeMemory v.size)
    return v
  | .putState, [key, v] =>
    let key ← wantText f key
    let context ← Exec.current
    let size ← Exec.viewing (Access.set s.limits context.space key v)
    Exec.metered (Meter.chargeMemory size)
    return .bool true
  | .delState, [key] =>
    let key ← wantText f key
    let context ← Exec.current
    Exec.viewing (Access.delete s.limits context.space key)
    return .bool true
  | .caller, [] => return .str (← Exec.current).caller
  | .contractId, [] => return .str (← Exec.current).contract.hex
  | .blockHeight, [] => do
    let context ← Exec.current
    return .int (Int64.ofNat (min context.height.toNat 0x7fffffffffffffff))
  | .callContract, [target, method, args] =>
    let target ← wantText f target
    let method ← wantText f method
    below.callContract s target method args
  | .log, args => writeLog args
  | f, args => Exec.fault (.wrongArgumentCount f.name (f.arity?.getD 0) args.length)

/-- Calls what a name means: a function of the program, else a built-in function, else a
host function, else `undefinedFunction`. -/
def call (s : Surroundings σ) (below : Evaluator σ) (p : Program) (name : String)
    (args : List Value) : Exec σ Value :=
  match p.functions[name]? with
  | some f => below.callFunction p f args
  | none =>
    match Builtin.ofName? name with
    | some f => do
      modify (Exec.notice s (.builtin f))
      let v ← Exec.compute (f.apply args)
      Exec.chargeNew v
      return v
    | none =>
      match HostFunction.ofName? name with
      | some f => do
        modify (Exec.notice s (.hosted f))
        below.callHost s f args
      | none => Exec.fault (.undefinedFunction name)

/-! ## Expressions -/

/-- Reads a path into a value; of the value only what is found is charged by `chargeCopy`. -/
def readInto (v : Value) (keys : List PathKey) : Exec σ Value := do
  let (found, scanned) ← Exec.compute (v.readPath keys)
  Exec.chargeCopy found scanned
  return found

/-- Reads a chain of accesses.  A variable at its root is looked up after the
keys are evaluated, and stays where it is. -/
def readChain (below : Evaluator σ) (p : Program) (root : Expr) (path : List Accessor) :
    Exec σ Value :=
  match root with
  | .ident name => do
    let keys ← below.evalKeys p path
    readInto (← Exec.lookup name).value keys
  | root => do
    let v ← below.eval p root
    readInto v (← below.evalKeys p path)

/-- What an expression does once its level is open and its step is counted. -/
def evalBody (s : Surroundings σ) (below : Evaluator σ) (p : Program) :
    Expr → Exec σ Value
  | .null => return .null
  | .bool b => return .bool b
  | .int n => return .int n
  | .str t => do
    Exec.chargeNew (.str t)
    return .str t
  | .ident name => do
    let slot ← Exec.lookup name
    Exec.chargeCopy slot.value 0
    return slot.value
  | .list items => do
    let v := Value.list (← below.evalAll p items)
    Exec.chargeNew v
    return v
  | .map entries => do
    let v := Value.map (Entries.ofList (← below.evalEntries p entries))
    Exec.chargeNew v
    return v
  | .member base name =>
    let (root, path) := base.chain [.member name]
    below.readChain p root path
  | .index base key =>
    let (root, path) := base.chain [.index key]
    below.readChain p root path
  | .call name args => do
    let args ← below.evalAll p args
    below.call s p name args
  | .unary op operand => do
    Exec.compute (op.apply (← below.eval p operand))
  | .binary op left right => do
    let left ← below.eval p left
    let right ← below.eval p right
    let v ← Exec.compute (op.apply left right)
    Exec.chargeNew v
    return v
  | .logical op left right => do
    let v ← below.eval p left
    match op, v.truthy with
    | .and, false => return v
    | .or, true => return v
    | _, _ => below.eval p right

/-! ## Statements -/

/-- What a compound assignment combines with its right-hand side is read after
that side is evaluated. -/
def combine (op : Script.BinaryOp) (root : String) (keys : List PathKey) (rhs : Value) :
    Exec σ Value := do
  let current ← readInto (← Exec.lookup root).value keys
  let v ← Exec.compute (op.apply current rhs)
  Exec.chargeNew v
  return v

/-- Assigns to a variable, which must not be `constant`, or to a place inside its value,
which may be. -/
def store (root : String) (keys : List PathKey) (v : Value) : Exec σ Unit := do
  let slot ← Exec.lookup root
  if keys.isEmpty && slot.constant then Exec.fault (.constantAssigned root)
  else Exec.change root slot.value (Value.writePath v keys)

/-- Evaluates the keys of the target, then the right-hand side, and assigns. -/
def assign (below : Evaluator σ) (p : Program) (target : Place) (op : AssignOp)
    (value : Expr) : Exec σ Unit := do
  let keys ← below.evalKeys p target.path
  let rhs ← below.eval p value
  let v ← match op with
    | .set => pure rhs
    | .add => combine .add target.root keys rhs
    | .sub => combine .sub target.root keys rhs
  store target.root keys v

/-- What a statement does once its level is open and its step is counted.  A loop has
`maxTurns` turns. -/
def execBody (below : Evaluator σ) (p : Program) : Stmt → Exec σ Flow
  | .declare b => do
    let v ← below.evalInit p b.init
    Exec.vars (·.declare b.name ⟨v, b.constant⟩)
    return .onward
  | .assign target op value => do
    below.assign p target op value
    return .onward
  | .branch condition yes no => do
    if (← below.eval p condition).truthy then below.execBlock p yes
    else below.execBlock p no
  | .loop condition body => below.turn p condition body maxTurns
  | .block body => below.execBlock p body
  | .leave => return .leave
  | .again => return .again
  | .result value => return .result (← below.evalInit p value)
  | .fail value => do
    Exec.fault (.uncaught (← below.eval p value).shown)
  | .evaluate value => do
    let _ ← below.eval p value
    return .onward

/-! ## Levels -/

/-- Opens a level, counts a step and evaluates; the level is closed in any
case. -/
def nested {α : Type} (s : Surroundings σ) (body : Exec σ α) : Exec σ α := do
  Exec.metered Meter.enterNesting
  modify (Exec.notice s .entered)
  Exec.closing (do Exec.step; body) fun m =>
    Exec.notice s .left { m with host := { m.host with meter := m.host.meter.exitNesting } }

/-- No level is left: `nestingExhausted`. -/
def ground : Evaluator σ where
  eval _ _ := throw Meter.nestingExhausted
  exec _ _ := throw Meter.nestingExhausted

/-- The level above a level: `evalBody` and `execBody`, each `nested`. -/
def above (s : Surroundings σ) (below : Evaluator σ) : Evaluator σ where
  eval p e := nested s (below.evalBody s p e)
  exec p stmt := nested s (below.execBody p stmt)

/-- Evaluation with a number of levels. -/
def ofLevels (s : Surroundings σ) : Nat → Evaluator σ
  | 0 => ground
  | n + 1 => (ofLevels s n).above s

/-- Evaluation with all `maxNesting` levels that a call may open. -/
def whole (s : Surroundings σ) : Evaluator σ := ofLevels s maxNesting

end Evaluator

/-! ## Outcomes -/

/-- What a run leaves behind. -/
structure Outcome where
  result : Except ContractError Value
  view : View
  usage : Usage
  /-- The namespaces of all contracts that have run. -/
  executed : Spaces
  /-- The lines that were logged, in their order. -/
  logs : List String

/-- What a host leaves behind when its call has come to a result. -/
def Host.outcome (h : Host) (result : Except ContractError Value) : Outcome where
  result := result
  view := h.view
  usage := h.meter.usage
  executed := h.executed
  logs := h.logs.reverse

/-- A call as it begins. -/
def Machine.start {σ : Type} (host : Host) (outside : σ) : Machine σ := ⟨{}, host, outside⟩

/-- Runs a part of a call, and tells how it ended and what it left. -/
def Exec.finish {σ α : Type} (x : Exec σ α) (m : Machine σ) :
    Except ContractError α × Machine σ :=
  match x m with
  | .ok a m => (.ok a, m)
  | .error e m => (.error e, m)

/-- The entry point that a context asks for, if the contract has it, else
`missingEntryPoint`. -/
def runEntry {σ : Type} (s : Surroundings σ) (contract : Contract) (context : Context) :
    Exec σ Value :=
  if contract.declares context.entryPoint then
    (Evaluator.whole s).run contract.program context.entryPoint.name context.entryArgs
  else throw (.missingEntryPoint context.entryPoint)

/-- Runs a contract in a context, under a `Meter.new`; the outside state comes back as the
run left it. -/
def execute {σ : Type} (s : Surroundings σ) (contract : Contract) (context : Context)
    (view : View) (budget : Budget) (interval : UInt64) (outside : σ) : Outcome × σ :=
  let host := Host.new (Meter.new budget interval) view context
  let (result, m) := (runEntry s contract context).finish (Machine.start host outside)
  (m.host.outcome result, m.outside)

end LedgerScript
