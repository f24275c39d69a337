import LedgerScript.Machine.Evaluator
import LedgerScript.Proofs.Sequence

/-!
# The parts of a run

A run is put together from few parts: charges, looks at variables, host
functions, and brackets that open something and close it again.  Here the
evaluator is written in these parts, and what each part does is said by what
the meter, the view, the outside state or the part inside of it does.
-/

namespace LedgerScript

open Script (Program Expr Stmt Place Function AssignOp)

namespace Exec

variable {σ α : Type}

/-- Goes by the context of the contract that is running. -/
def withContext (f : Context → Exec σ α) : Exec σ α := current >>= f

/-- A block: a scope is opened, and closed in any case. -/
def inScope (x : Exec σ α) : Exec σ α := do
  Exec.vars Variables.pushScope
  Exec.closing x fun m => { m with vars := m.vars.popScope }

/-- A function: a frame is opened, and closed in any case. -/
def inFrame (scope : Scope) (x : Exec σ α) : Exec σ α := do
  Exec.metered Meter.enterFrame
  Exec.vars (·.pushFrame scope)
  Exec.closing x fun m =>
    { m with
      vars := m.vars.popFrame
      host := { m.host with meter := m.host.meter.exitFrame } }

/-- The value under a key of the running contract. -/
def getState (s : Surroundings σ) (key : String) : Exec σ Value :=
  withContext fun c => viewing (Access.get s.entries s.limits c.space key)

/-- Writes a value under a key of the running contract. -/
def putState (s : Surroundings σ) (key : String) (v : Value) : Exec σ Nat :=
  withContext fun c => viewing (Access.set s.limits c.space key v)

/-- Deletes a key of the running contract. -/
def delState (s : Surroundings σ) (key : String) : Exec σ Unit :=
  withContext fun c => viewing (Access.delete s.limits c.space key)

/-- What the running contract may know of the call. -/
def told (f : (caller : String) → ContractId → (height : UInt64) → Value) : Exec σ Value :=
  withContext fun c => pure (f c.caller c.contract c.height)

/-- Adds a line of the running contract to the log. -/
def logLine (line : String) : Exec σ Unit :=
  withContext fun _ => host fun h => { h with logs := line :: h.logs }

end Exec

namespace Evaluator

variable {σ : Type} (s : Surroundings σ) (below : Evaluator σ) (p : Program)

theorem execBlock_eq (body : List Stmt) :
    below.execBlock p body = Exec.inScope (below.execAll p body) :=
  rfl

theorem callFunction_eq (f : Function) (args : List Value) :
    below.callFunction p f args = do
      let flow ← Exec.inFrame (Variables.bindArgs ∅ f.params args) (below.execAll p f.body)
      match flow with
      | .result v => return v
      | _ => return .null := by
  unfold callFunction Exec.inFrame
  rw [bind_assoc]
  refine congrArg (Exec.metered Meter.enterFrame >>= ·) (funext fun _ => ?_)
  exact (bind_assoc ..).symm

/-- What a run does once the top level is evaluated. -/
def start (name : String) (args : List Value) : Exec σ Value :=
  match p.functions[name]? with
  | some f => below.callFunction p f args
  | none => Exec.fault (.undefinedFunction name)

theorem run_eq (name : String) (args : List Value) :
    below.run p name args =
      below.initGlobals p p.globals >>= fun _ => below.start p name args :=
  rfl

/-- What an assignment does once the keys of its target are evaluated. -/
def assignAt (root : String) (keys : List PathKey) (op : AssignOp) (value : Expr) :
    Exec σ Unit := do
  let rhs ← below.eval p value
  let v ← match op with
    | .set => pure rhs
    | .add => combine .add root keys rhs
    | .sub => combine .sub root keys rhs
  store root keys v

theorem assign_eq (target : Place) (op : AssignOp) (value : Expr) :
    below.assign p target op value =
      below.evalKeys p target.path >>= fun keys => below.assignAt p target.root keys op value :=
  rfl

theorem writeLog_eq (args : List Value) :
    (writeLog args : Exec σ Value) = do
      let line := " ".intercalate (args.map Value.shown)
      Exec.metered (Meter.chargeMemory line.utf8ByteSize)
      Exec.logLine line
      return .null :=
  congrArg (Exec.metered _ >>= ·) (funext fun _ => (bind_assoc ..).symm)

/-- What a host function does once its cost is counted. -/
def hostBody (f : HostFunction) (args : List Value) : Exec σ Value :=
  match f, args with
  | .getState, [key] => do
    let key ← wantText f key
    let v ← Exec.getState s key
    Exec.metered (Meter.chargeMemory v.size)
    return v
  | .putState, [key, v] => do
    let key ← wantText f key
    let size ← Exec.putState s key v
    Exec.metered (Meter.chargeMemory size)
    return .bool true
  | .delState, [key] => do
    let key ← wantText f key
    Exec.delState s key
    return .bool true
  | .caller, [] => Exec.told fun caller _ _ => .str caller
  | .contractId, [] => Exec.told fun _ contract _ => .str contract.hex
  | .blockHeight, [] =>
    Exec.told fun _ _ height => .int (Int64.ofNat (min height.toNat 0x7fffffffffffffff))
  | .callContract, [target, method, args] => do
    let target ← wantText f target
    let method ← wantText f method
    below.callContract s target method args
  | .log, args => writeLog args
  | f, args => Exec.fault (.wrongArgumentCount f.name (f.arity?.getD 0) args.length)

theorem callHost_eq (f : HostFunction) (args : List Value) :
    below.callHost s f args =
      Exec.metered (Meter.chargeSteps f.cost) >>= fun _ => below.hostBody s f args := by
  unfold callHost
  refine congrArg (Exec.metered _ >>= ·) (funext fun _ => ?_)
  fun_cases hostBody s below f args
  case case1 key =>
    exact congrArg (wantText .getState key >>= ·) (funext fun _ => (bind_assoc ..).symm)
  case case2 key v =>
    exact congrArg (wantText .putState key >>= ·) (funext fun _ => (bind_assoc ..).symm)
  case case3 key =>
    exact congrArg (wantText .delState key >>= ·) (funext fun _ => (bind_assoc ..).symm)
  case case9 => simp only
  all_goals rfl

end Evaluator

/-! ## What the parts do -/

/-- The namespace in which the running contract reads and writes. -/
def Host.space? (h : Host) : Option Namespace := h.current?.map Context.space

theorem Host.space?_of_contexts {a b : Host} (same : b.contexts = a.contexts) :
    b.space? = a.space? := by
  unfold space? current?
  rw [same]

theorem Host.space?_of_current {h : Host} {c : Context} {space : Namespace}
    (running : h.current? = some c) (own : space = c.space) : h.space? = some space := by
  unfold space?
  rw [running, own]
  rfl

variable {σ α : Type}

/-- An error that says that something has been used up. -/
def ContractError.Exhausted : ContractError → Prop
  | .exhausted .. => True
  | _ => False

namespace Meter

/-- The depth that a further frame would have. -/
def deeper (m : Meter) : UInt16 := if m.depth = 65535 then m.depth else m.depth + 1

theorem enterFrame_eq (m : Meter) :
    enterFrame m =
      if m.deeper ≤ m.budget.maxDepth then
        .ok () { m with depth := m.deeper, maxDepth := max m.maxDepth m.deeper }
      else
        .error (.exhausted .callDepth m.deeper.toUInt64 m.budget.maxDepth.toUInt64) m :=
  rfl

theorem enterFrame_eq_ok {m opened : Meter} (h : enterFrame m = .ok () opened) :
    m.deeper ≤ m.budget.maxDepth ∧
      opened = { m with depth := m.deeper, maxDepth := max m.maxDepth m.deeper } := by
  rw [enterFrame_eq] at h
  split at h
  · rename_i fits
    cases h
    exact ⟨fits, rfl⟩
  · cases h

/-- A frame that is refused leaves the meter as it is. -/
theorem enterFrame_eq_error {m next : Meter} {e : ContractError}
    (h : enterFrame m = .error e next) :
    e = .exhausted .callDepth m.deeper.toUInt64 m.budget.maxDepth.toUInt64 ∧ next = m := by
  rw [enterFrame_eq] at h
  split at h <;> cases h
  exact ⟨rfl, rfl⟩

/-- What a run may charge. -/
inductive Charge : Metered Unit → Prop
  | steps (n : Nat) : Charge (chargeSteps n)
  | memory (n : Nat) : Charge (chargeMemory n)
  | frame : Charge enterFrame
  | nesting : Charge enterNesting

/-- What is charged is taken, or it is too much. -/
theorem Charge.cases {x : Metered Unit} (h : Charge x) (m : Meter) :
    (∃ next, x m = .ok () next) ∨ ∃ e next, x m = .error e next ∧ e.Exhausted := by
  cases h with
  | steps n =>
    unfold chargeSteps
    dsimp only
    split
    · exact .inl ⟨_, rfl⟩
    · split
      · exact .inl ⟨_, rfl⟩
      · exact .inr ⟨_, _, rfl, trivial⟩
  | memory n =>
    unfold chargeMemory
    dsimp only
    split
    · exact .inl ⟨_, rfl⟩
    · exact .inr ⟨_, _, rfl, trivial⟩
  | frame =>
    rw [enterFrame_eq]
    split
    · exact .inl ⟨_, rfl⟩
    · exact .inr ⟨_, _, rfl, trivial⟩
  | nesting =>
    unfold enterNesting
    split
    · exact .inl ⟨_, rfl⟩
    · exact .inr ⟨_, _, rfl, trivial⟩

theorem Charge.exhausted {x : Metered Unit} (h : Charge x) {m next : Meter} {e : ContractError}
    (failed : x m = .error e next) : e.Exhausted := by
  rcases h.cases m with ⟨mid, taken⟩ | ⟨f, mid, failed', exhausted⟩
  · cases taken.symm.trans failed
  · cases failed'.symm.trans failed
    exact exhausted

end Meter

namespace Machine

/-- The machine with another meter. -/
def withMeter (m : Machine σ) (meter : Meter) : Machine σ :=
  { m with host := { m.host with meter := meter } }

/-- The machine with another view. -/
def withView (m : Machine σ) (view : View) : Machine σ :=
  { m with host := { m.host with view := view } }

/-- The machine with another state outside. -/
def withOutside (m : Machine σ) (outside : σ) : Machine σ := { m with outside := outside }

end Machine

namespace Exec

variable {m next : Machine σ} {a : α} {e : ContractError}

theorem metered_of_ok {x : Metered α} {meter : Meter} (h : x m.host.meter = .ok a meter) :
    metered x m = .ok a (m.withMeter meter) := by
  unfold metered
  rw [h]
  rfl

theorem metered_of_error {x : Metered α} {meter : Meter} (h : x m.host.meter = .error e meter) :
    metered x m = .error e (m.withMeter meter) := by
  unfold metered
  rw [h]
  rfl

theorem viewing_of_ok {x : Viewing α} {view : View} (h : x m.host.view = .ok a view) :
    viewing x m = .ok a (m.withView view) := by
  unfold viewing
  rw [h]
  rfl

theorem viewing_of_error {x : Viewing α} {view : View} (h : x m.host.view = .error e view) :
    viewing x m = .error e (m.withView view) := by
  unfold viewing
  rw [h]
  rfl

theorem outside_of_ok {x : EStateM ContractError σ α} {outside : σ}
    (h : x m.outside = .ok a outside) : Exec.outside x m = .ok a (m.withOutside outside) := by
  unfold Exec.outside
  rw [h]
  rfl

theorem outside_of_error {x : EStateM ContractError σ α} {outside : σ}
    (h : x m.outside = .error e outside) :
    Exec.outside x m = .error e (m.withOutside outside) := by
  unfold Exec.outside
  rw [h]
  rfl

theorem withContext_of_some {c : Context} (h : m.host.current? = some c)
    (f : Context → Exec σ α) : withContext f m = f c m := by
  refine bind_of_ok ?_
  unfold current
  rw [h]

theorem withContext_of_none (h : m.host.current? = none) (f : Context → Exec σ α) :
    withContext f m = .error noContext m := by
  refine bind_of_error ?_
  unfold current
  rw [h]

theorem lookup_of_some {name : String} {slot : Slot} (h : m.vars.find? name = some slot) :
    lookup name m = .ok slot m := by
  unfold lookup
  rw [h]

theorem lookup_of_none {name : String} (h : m.vars.find? name = none) :
    lookup name m = .error (.script (.undefinedVariable name)) m := by
  unfold lookup
  rw [h]

theorem change_of_ok {x : Value.Change} {held v : Value} (h : x held = .ok () v) (name : String) :
    change name held x m = .ok () { m with vars := m.vars.update name v } := by
  unfold change
  rw [h]

theorem change_of_error {x : Value.Change} {held v : Value} {f : ScriptFault}
    (h : x held = .error f v) (name : String) :
    change name held x m = .error (.script f) { m with vars := m.vars.update name v } := by
  unfold change
  rw [h]

theorem closing_of_ok {x : Exec σ α} (h : x m = .ok a next) (close : Machine σ → Machine σ) :
    closing x close m = .ok a (close next) := by
  unfold closing
  rw [h]

theorem closing_of_error {x : Exec σ α} (h : x m = .error e next)
    (close : Machine σ → Machine σ) : closing x close m = .error e (close next) := by
  unfold closing
  rw [h]

/-- What is closed in any case was open when `x` ended. -/
theorem Ends.of_closing {x : Exec σ α} {close : Machine σ → Machine σ}
    (h : Ends (closing x close) m next) : ∃ last, Ends x m last ∧ next = close last := by
  unfold Ends closing at h
  cases ran : x m with
  | ok a last =>
    simp only [ran] at h
    rcases h with ⟨b, same⟩ | ⟨e, same⟩ <;> cases same
    exact ⟨last, .inl ⟨a, ran⟩, rfl⟩
  | error e last =>
    simp only [ran] at h
    rcases h with ⟨b, same⟩ | ⟨e, same⟩ <;> cases same
    exact ⟨last, .inr ⟨e, ran⟩, rfl⟩

theorem finish_of_ok {x : Exec σ α} (h : x m = .ok a next) : x.finish m = (.ok a, next) := by
  unfold finish
  rw [h]

theorem finish_of_error {x : Exec σ α} (h : x m = .error e next) :
    x.finish m = (.error e, next) := by
  unfold finish
  rw [h]

theorem eq_ok_of_finish {x : Exec σ α} (h : (x.finish m).1 = .ok a) :
    x m = .ok a (x.finish m).2 := by
  cases ran : x m with
  | ok b next =>
    rw [finish_of_ok ran] at h ⊢
    cases h
    rfl
  | error e next =>
    rw [finish_of_error ran] at h
    cases h

theorem ends_finish (x : Exec σ α) (m : Machine σ) : Ends x m (x.finish m).2 := by
  cases h : x m with
  | ok a next =>
    rw [finish_of_ok h]
    exact .inl ⟨a, h⟩
  | error e next =>
    rw [finish_of_error h]
    exact .inr ⟨e, h⟩

end Exec

section

variable {s : Surroundings σ} {contract : Contract} {context : Context} {view : View}
  {budget : Budget} {interval : UInt64} {outside : σ} {next : Machine σ}

theorem execute_of_ok {v : Value}
    (h : runEntry s contract context
      (.start (.new (.new budget interval) view context) outside) = .ok v next) :
    execute s contract context view budget interval outside =
      (next.host.outcome (.ok v), next.outside) := by
  unfold execute
  dsimp only
  rw [Exec.finish_of_ok h]

theorem execute_of_error {e : ContractError}
    (h : runEntry s contract context
      (.start (.new (.new budget interval) view context) outside) = .error e next) :
    execute s contract context view budget interval outside =
      (next.host.outcome (.error e), next.outside) := by
  unfold execute
  dsimp only
  rw [Exec.finish_of_error h]

end

end LedgerScript
