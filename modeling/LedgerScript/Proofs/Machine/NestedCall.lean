import LedgerScript.Proofs.Machine.Parts

/-!
# Calls between contracts

A contract that calls another one gives it the machine (`Machine.entering`) and
takes it back when it fails (`Machine.leaving`) or returns (`Machine.resume`).
`Evaluator.callContract_eq` says all that a call does.
-/

namespace LedgerScript

variable {σ : Type}

namespace Machine

/-- The machine as a called contract finds it. -/
def entering (s : Surroundings σ) (m : Machine σ) (child : Context) : Machine σ :=
  Exec.notice s .called { m with vars := {}, host := m.host.entering child }

/-- The machine that a called contract leaves, with one context less and with the
variables of `before`. -/
def leaving (before next : Machine σ) : Machine σ :=
  { next with vars := before.vars, host := next.host.returning }

/-- The machine after a called contract has returned; `View.rollback` takes back what it
wrote unless it returned a truthy value. -/
def resume (s : Surroundings σ) (before : Machine σ) (child : Context) (truthy : Bool)
    (next : Machine σ) : Machine σ :=
  let back := Exec.notice s (.returned child.contract truthy) (before.leaving next)
  if truthy then back else back.withView (back.host.view.rollback before.host.view.writes)

/-- The running contract may call another one in this context. -/
def MayCall (m : Machine σ) (child : Context) : Prop :=
  (∃ running callee method args, m.host.current? = some running ∧
      child = running.child callee method args) ∧
    ∀ c ∈ m.host.contexts, c.contract ≠ child.contract

theorem MayCall.space {m : Machine σ} {child : Context} (may : m.MayCall child) :
    child.space = child.contract.space := by
  obtain ⟨⟨running, callee, method, args, -, rfl⟩, -⟩ := may
  rfl

/-- The contract that calls another one is on top of the `callers` that wait. -/
theorem MayCall.length_contexts {m : Machine σ} {child : Context} (may : m.MayCall child) :
    m.host.contexts.length = m.host.callers.length + 1 := by
  obtain ⟨⟨running, -, -, -, found, -⟩, -⟩ := may
  obtain ⟨callers, same⟩ := List.head?_eq_some_iff.1 found
  unfold Host.callers
  rw [same]
  rfl

/-- The running contract `MayCall` any that neither runs nor waits. -/
theorem mayCall_of_fresh {m : Machine σ} {callee : ContractId} {method : String} {args : Value}
    {child : Context} (fresh : ¬ m.host.contexts.any (·.contract = callee) = true)
    (built : m.host.current?.map (·.child callee method args) = some child) :
    m.MayCall child ∧ child.contract = callee := by
  obtain ⟨running, found, rfl⟩ := Option.map_eq_some_iff.1 built
  refine ⟨⟨⟨running, callee, method, args, found, rfl⟩, fun c mem same => fresh ?_⟩, rfl⟩
  exact List.any_eq_true.2 ⟨c, mem, decide_eq_true same⟩

/-- `resolve` has just found a contract under an identity. -/
def HasFound (s : Surroundings σ) (m : Machine σ) (id : ContractId) : Prop :=
  ∃ contract before, s.resolve id before = .ok contract m.outside

end Machine

namespace Evaluator

/-- Runs a called contract that has been found. -/
def enter (s : Surroundings σ) (below : Evaluator σ) (contract : Contract) (child : Context) :
    Exec σ Value := fun m =>
  match below.run contract.program EntryPoint.invoke.name child.entryArgs (m.entering s child) with
  | .ok v next => .ok v (m.resume s child v.truthy next)
  | .error e next => .error e (m.leaving next)

/-- Finds a contract by `resolve` and runs it in a context, if there is one. -/
def callFound (s : Surroundings σ) (below : Evaluator σ) (callee : ContractId)
    (child? : Option Context) : Exec σ Value := fun m =>
  match s.resolve callee m.outside with
  | .error e outside => .error e (m.withOutside outside)
  | .ok contract outside =>
    if contract.declares .invoke then
      match child? with
      | some child => below.enter s contract child (m.withOutside outside)
      | none => .error Exec.noContext (m.withOutside outside)
    else .error (.missingEntryPoint .invoke) (m.withOutside outside)

variable {s : Surroundings σ} {x : Evaluator σ} {child : Context} {m next : Machine σ}
  {contract : Contract} {e : ContractError} {outside : σ}

theorem enter_of_ok {v : Value}
    (h : x.run contract.program EntryPoint.invoke.name child.entryArgs (m.entering s child) =
      .ok v next) :
    x.enter s contract child m = .ok v (m.resume s child v.truthy next) := by
  unfold enter
  rw [h]

theorem enter_of_error
    (h : x.run contract.program EntryPoint.invoke.name child.entryArgs (m.entering s child) =
      .error e next) :
    x.enter s contract child m = .error e (m.leaving next) := by
  unfold enter
  rw [h]

theorem callFound_of_ok {callee : ContractId} (child : Context)
    (h : s.resolve callee m.outside = .ok contract outside) :
    x.callFound s callee (some child) m =
      if contract.declares .invoke then x.enter s contract child (m.withOutside outside)
      else .error (.missingEntryPoint .invoke) (m.withOutside outside) := by
  unfold callFound
  rw [h]

/-- Without a context `callFound` does not run the contract that it finds. -/
theorem callFound_none_of_ok {callee : ContractId}
    (h : s.resolve callee m.outside = .ok contract outside) :
    ∃ e, x.callFound s callee none m = .error e (m.withOutside outside) := by
  unfold callFound
  rw [h]
  dsimp only
  split
  · exact ⟨_, rfl⟩
  · exact ⟨_, rfl⟩

theorem callFound_of_error {callee : ContractId} (child? : Option Context)
    (h : s.resolve callee m.outside = .error e outside) :
    x.callFound s callee child? m = .error e (m.withOutside outside) := by
  unfold callFound
  rw [h]

theorem callFound_eq (s : Surroundings σ) (below : Evaluator σ) (callee : ContractId)
    (child? : Option Context) :
    below.callFound s callee child? = Exec.outside (s.resolve callee) >>= fun contract =>
      if contract.declares .invoke then
        child?.elim (throw Exec.noContext) (below.enter s contract)
      else throw (.missingEntryPoint .invoke) := by
  funext m
  unfold callFound
  cases hr : s.resolve callee m.outside with
  | error e outside => rw [bind_of_error (Exec.outside_of_error hr)]
  | ok contract outside =>
    rw [bind_of_ok (Exec.outside_of_ok hr)]
    dsimp only
    split
    · cases child? <;> rfl
    · rfl

/-- `runContract` in terms of `entering` and `Host.returning`. -/
theorem runContract_eq (s : Surroundings σ) (below : Evaluator σ) (contract : Contract)
    (child : Context) (m : Machine σ) :
    below.runContract s contract child m =
      match below.run contract.program EntryPoint.invoke.name child.entryArgs
        (m.entering s child) with
      | .ok v next => .ok v (m.leaving next)
      | .error e next => .error e (m.leaving next) := by
  unfold runContract Exec.closing Machine.entering
  cases below.run contract.program EntryPoint.invoke.name child.entryArgs _ <;> rfl

/-- `enter` in terms of `resume` and `leaving`. -/
theorem enter_eq (s : Surroundings σ) (below : Evaluator σ) (contract : Contract)
    (child : Context) (m : Machine σ) :
    below.enter s contract child m =
      (do
        let v ← below.runContract s contract child
        modify (Exec.notice s (.returned child.contract v.truthy))
        if !v.truthy then
          Exec.host fun h => { h with view := h.view.rollback m.host.view.writes }
        return v : Exec σ Value) m := by
  unfold enter
  cases hx : below.run contract.program EntryPoint.invoke.name child.entryArgs
      (m.entering s child) with
  | error e next => rw [bind_of_error (by rw [runContract_eq, hx])]
  | ok v next =>
    rw [bind_of_ok (by rw [runContract_eq, hx])]
    dsimp only
    unfold Machine.resume
    cases v.truthy <;> rfl

theorem callContract_eq (s : Surroundings σ) (below : Evaluator σ) (target method : String)
    (args : Value) (m : Machine σ) :
    below.callContract s target method args m =
      match ContractId.ofHex target with
      | .error _ => .error (.script (.badContractId target)) m
      | .ok callee =>
        if m.host.contexts.any (·.contract = callee) then .error (.script (.reentrant callee)) m
        else below.callFound s callee (m.host.current?.map (·.child callee method args)) m := by
  unfold callContract
  cases ContractId.ofHex target with
  | error f => rfl
  | ok callee =>
    dsimp only
    rw [bind_of_ok (x := get) (a := m) (t := m) rfl]
    split
    · rfl
    · unfold callFound
      cases hr : s.resolve callee m.outside with
      | error e outside => rw [bind_of_error (Exec.outside_of_error hr)]
      | ok contract outside =>
        rw [bind_of_ok (Exec.outside_of_ok hr)]
        dsimp only
        split
        · cases running : (m.withOutside outside).host.current? with
          | none =>
            refine (Exec.withContext_of_none running _).trans ?_
            rw [show m.host.current? = none from running]
            rfl
          | some c =>
            refine (Exec.withContext_of_some running _).trans ?_
            rw [show m.host.current? = some c from running]
            exact (enter_eq s below contract (c.child callee method args)
              (m.withOutside outside)).symm
        · rfl

/-- Calls a contract by its identity, given the contexts of the contract that
runs and of those that wait. -/
def callNew (s : Surroundings σ) (below : Evaluator σ) (callee : ContractId) (method : String)
    (args : Value) (contexts : List Context) : Exec σ Value :=
  if contexts.any (·.contract = callee) then Exec.fault (.reentrant callee)
  else below.callFound s callee (contexts.head?.map (·.child callee method args))

theorem callContract_of_error {target : String} {f : Text.HexFault}
    (h : ContractId.ofHex target = .error f) (method : String) (args : Value) :
    x.callContract s target method args = Exec.fault (.badContractId target) := by
  funext m
  rw [callContract_eq, h]
  rfl

theorem callContract_of_ok {target : String} {callee : ContractId}
    (h : ContractId.ofHex target = .ok callee) (method : String) (args : Value) :
    x.callContract s target method args =
      fun m => x.callNew s callee method args m.host.contexts m := by
  funext m
  rw [callContract_eq, h]
  exact (apply_ite (fun call : Exec σ Value => call m) _ _ _).symm

end Evaluator

/-- Nothing is committed and no contract is deployed, for examples. -/
def Surroundings.bare : Surroundings Unit where
  entries := ∅
  limits := {}
  resolve id := throw (.contractNotFound id)

/-- A contract of thirty-two equal bytes that does something when it is invoked,
for examples. -/
def Contract.specimen (byte : UInt8) (body : List Script.Stmt) : Contract where
  id := ⟨List.replicate 32 byte, List.length_replicate⟩
  compiled :=
    let invoke : Script.Function := ⟨EntryPoint.invoke.name, ["method", "args"], body⟩
    ⟨{ functions := Std.ExtTreeMap.ofList [(invoke.name, invoke)] }⟩
  sourceLength := 0

end LedgerScript
