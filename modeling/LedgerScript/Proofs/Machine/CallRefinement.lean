import LedgerScript.Proofs.Machine.Coupling
import LedgerScript.Proofs.State.Reading

/-!
# Calls of contracts by contracts and by the host

A contract that is called by another one does what it would do if the host invoked
it over committed state in which the writes that are pending have taken effect.  Only
errors that come from what the whole call has used and entered tell the two apart
(`ContractError.Inherited`).  Main statement: `callContract_refines`.
-/

namespace LedgerScript

variable {σ α : Type}

/-- An error that comes from what the whole call has used, or from the contracts that
wait: `exhausted` or `reentrant`. -/
def ContractError.Inherited : ContractError → Prop
  | .exhausted .. | .script (.reentrant _) => True
  | _ => False

theorem ContractError.Exhausted.inherited {e : ContractError} (h : e.Exhausted) : e.Inherited := by
  cases e with
  | exhausted => trivial
  | _ => exact h.elim

/-! ## Views -/

/-- A view over committed state in which `w` was pending, beside a view over the
state in which `w` is committed. -/
structure View.Beside (entries : Committed) (w : WriteSet) (v v' : View) : Prop where
  writes : ∀ key : StateKey, v.writes[key]? = (v'.writes[key]?).or w[key]?
  reads : v.reads.Holds entries
  reads' : v'.reads.Holds (entries.overlay w)

namespace View.Beside

variable {entries : Committed} {w : WriteSet} {v v' back back' : View}

theorem found (h : v.Beside entries w v') (key : StateKey) :
    v'.found (entries.overlay w) key = v.found entries key := by
  rw [found_of_holds h.reads, found_of_holds h.reads', Committed.getElem?_overlay,
    Committed.getElem?_overlay, Committed.getElem?_overlay, h.writes key]
  cases v'.writes[key]? <;> rfl

theorem look (h : v.Beside entries w v') (key : StateKey) :
    (v.look entries key).Beside entries w (v'.look (entries.overlay w) key) := by
  refine ⟨fun other => ?_, h.reads.look key, h.reads'.look key⟩
  rw [View.writes_look, View.writes_look]
  exact h.writes other

theorem insert (h : v.Beside entries w v') (key : StateKey) (op : WriteOp) :
    View.Beside entries w { v with writes := v.writes.insert key op }
      { v' with writes := v'.writes.insert key op } := by
  refine ⟨fun other => ?_, h.reads, h.reads'⟩
  dsimp only
  rw [Std.ExtTreeMap.getElem?_insert, Std.ExtTreeMap.getElem?_insert]
  split
  · rfl
  · exact h.writes other

theorem rollback (h : v.Beside entries w v') (hb : back.Beside entries w back') :
    (back.rollback v.writes).Beside entries w (back'.rollback v'.writes) :=
  ⟨h.writes, hb.reads, hb.reads'⟩

/-! ### Accesses -/

theorem coupled_ofExcept (x : Except ContractError α) :
    Coupled (View.Beside entries w) ContractError.Inherited (Viewing.ofExcept x)
      (Viewing.ofExcept x) := by
  intro v v' h
  cases x with
  | ok a => exact .ok h
  | error e => exact .error h

theorem coupled_readThrough (key : StateKey) :
    Coupled (View.Beside entries w) ContractError.Inherited (Access.readThrough entries key)
      (Access.readThrough (entries.overlay w) key) := by
  intro v v' h
  rw [Access.readThrough_eq, Access.readThrough_eq, h.found]
  exact .ok (h.look key)

theorem coupled_checkWriteCount (limits : StateLimits) (key : StateKey) :
    Coupled (View.Beside entries w) ContractError.Inherited (Access.checkWriteCount limits key)
      (Access.checkWriteCount limits key) := by
  have cases : ∀ v, Access.checkWriteCount limits key v = .ok () v ∨
      ∃ used, Access.checkWriteCount limits key v =
        .error (.exhausted .stateWrites used limits.maxWrites) v := by
    intro v
    unfold Access.checkWriteCount
    split
    · exact .inl rfl
    · split
      · exact .inl rfl
      · exact .inr ⟨_, rfl⟩
  intro v v' h
  rcases cases v with left | ⟨used, left⟩
  · rcases cases v' with right | ⟨used, right⟩
    · rw [left, right]
      exact .ok h
    · rw [right]
      exact .right trivial
  · rw [left]
    exact .left trivial

theorem coupled_get (limits : StateLimits) (own : Namespace) (raw : String) :
    Coupled (View.Beside entries w) ContractError.Inherited (Access.get entries limits own raw)
      (Access.get (entries.overlay w) limits own raw) := by
  unfold Access.get
  refine .bind (coupled_ofExcept _) fun key => .bind (coupled_readThrough key) fun bytes? => ?_
  split
  · exact coupled_ofExcept _
  · exact .pure _

theorem coupled_set (limits : StateLimits) (own : Namespace) (raw : String) (value : Value) :
    Coupled (View.Beside entries w) ContractError.Inherited (Access.set limits own raw value)
      (Access.set limits own raw value) := by
  unfold Access.set
  exact .bind (coupled_ofExcept _) fun key => .bind (coupled_ofExcept _) fun bytes =>
    .bind (coupled_checkWriteCount limits key) fun _ =>
      .bind (.modify fun h => h.insert key (.put bytes)) fun _ => .pure _

theorem coupled_delete (limits : StateLimits) (own : Namespace) (raw : String) :
    Coupled (View.Beside entries w) ContractError.Inherited (Access.delete limits own raw)
      (Access.delete limits own raw) := by
  unfold Access.delete
  exact .bind (coupled_ofExcept _) fun key =>
    .bind (coupled_checkWriteCount limits key) fun _ => .modify fun h => h.insert key .delete

end View.Beside

/-! ## Machines -/

/-- A machine in the middle of a call, beside one whose call began when `w` was
pending and `before` was logged: the second has `w` committed. -/
structure Machine.Beside (entries : Committed) (w : WriteSet) (before : List String)
    (m n : Machine σ) : Prop where
  vars : n.vars = m.vars
  outside : n.outside = m.outside
  current : m.host.RunsAlike n.host
  view : m.host.view.Beside entries w n.host.view
  logs : m.host.logs = n.host.logs ++ before

namespace Machine.Beside

variable {entries : Committed} {w : WriteSet} {before : List String} {m n : Machine σ}

theorem withMeter (h : m.Beside entries w before n) (a b : Meter) :
    (m.withMeter a).Beside entries w before (n.withMeter b) :=
  ⟨h.vars, h.outside, h.current, h.view, h.logs⟩

theorem withView (h : m.Beside entries w before n) {a b : View} (hab : a.Beside entries w b) :
    (m.withView a).Beside entries w before (n.withView b) :=
  ⟨h.vars, h.outside, h.current, hab, h.logs⟩

theorem logs_reverse (h : m.Beside entries w before n) :
    m.host.logs.reverse = before.reverse ++ n.host.logs.reverse := by
  rw [h.logs, List.reverse_append]

/-- What is `Coupled` on the views side by side is so on the machines. -/
theorem coupled_access {f g : Namespace → Viewing α}
    (hfg : ∀ own, Coupled (View.Beside entries w) ContractError.Inherited (f own) (g own)) :
    Coupled (Machine.Beside (σ := σ) entries w before) ContractError.Inherited
      (Exec.withContext fun c => Exec.viewing (f c.space))
      (Exec.withContext fun c => Exec.viewing (g c.space)) := by
  refine .access (fun h => h.current) f g fun {m n} own h => ?_
  have accessed := hfg own h.view
  generalize f own m.host.view = left at accessed ⊢
  generalize g own n.host.view = right at accessed ⊢
  cases accessed with
  | ok hv => exact .ok (h.withView hv)
  | error hv => exact .error (h.withView hv)
  | left stopped => exact .left stopped
  | right stopped => exact .right stopped

end Machine.Beside

/-- `Machine.Beside` couples runs: machines that are beside each other stay so. -/
theorem couples_beside (entries : Committed) (limits : StateLimits)
    (resolve : ContractId → EStateM ContractError σ Contract) (w : WriteSet)
    (before : List String) :
    Couples { entries := entries, limits := limits, resolve := resolve }
      { entries := entries.overlay w, limits := limits, resolve := resolve }
      (Machine.Beside entries w before) ContractError.Inherited where
  sameVars h := h.vars
  current h := h.current
  vars h v := ⟨rfl, h.outside, h.current, h.view, h.logs⟩
  charge hx := .metered fun {m n} h => by
    rcases hx.cases m.host.meter with ⟨a, left⟩ | ⟨e, a, left, stopped⟩
    · rcases hx.cases n.host.meter with ⟨b, right⟩ | ⟨e, b, right, stopped⟩
      · rw [left, right]
        exact .ok (h.withMeter a b)
      · rw [right]
        exact .right stopped.inherited
    · rw [left]
      exact .left stopped.inherited
  discharge h f := h.withMeter _ _
  notice h _ := h
  getState key := Machine.Beside.coupled_access fun own => View.Beside.coupled_get limits own key
  putState key v :=
    Machine.Beside.coupled_access fun own => View.Beside.coupled_set limits own key v
  delState key :=
    Machine.Beside.coupled_access fun own => View.Beside.coupled_delete limits own key
  log h line := ⟨h.vars, h.outside, h.current, h.view, congrArg (line :: ·) h.logs⟩
  waits _ _ := .inr trivial
  resolve {m n} h id := by
    have same : ∀ a, (m.withOutside a).Beside entries w before (n.withOutside a) := fun _ =>
      ⟨h.vars, rfl, h.current, h.view, h.logs⟩
    change Joined _ _ (resolve id m.outside) (resolve id n.outside)
    rw [h.outside]
    cases resolve id m.outside with
    | ok contract a => exact .ok (same a)
    | error e a => exact .error (same a)
  entering h c d _ _ same callee method args :=
    ⟨rfl, h.outside, .inr ⟨_, _, rfl, rfl, same.child callee method args⟩, h.view, h.logs⟩
  leaving h later back back' :=
    ⟨h.vars, later.outside, h.current.of_contexts back back', later.view, later.logs⟩
  rollback h back := back.withView (h.view.rollback back.view)

/-! ## Calls -/

/-- What comes of a call by a contract, beside what comes of one by the host: the
result is the same, the same lines are added to those that were logged before, and a
truthy value lays the writes of the call by the host over `w`. -/
structure Outcome.Follows (outcome : Outcome) (w : WriteSet) (before : List String)
    (nested : Except ContractError Value × Machine σ) : Prop where
  result : nested.1 = outcome.result
  logs : nested.2.host.logs.reverse = before.reverse ++ outcome.logs
  writes : ∀ v, nested.1 = .ok v →
    if v.truthy then
      ∀ key : StateKey,
        nested.2.host.view.writes[key]? = (outcome.view.writes[key]?).or w[key]?
    else nested.2.host.view.writes = w

/-- The context in which the host would invoke a contract that is called in this one, by
`Context.forInvoke`. -/
def Context.hosted (c : Context) (callee : ContractId) (method : String) (args : Value) :
    Context :=
  .forInvoke callee c.contract.hex method args c.height

theorem Machine.logs_resume (s : Surroundings σ) (m next : Machine σ) (child : Context)
    (truthy : Bool) : (m.resume s child truthy next).host.logs = next.host.logs := by
  cases truthy <;> rfl

section

variable (entries : Committed) (limits : StateLimits)
  (resolve : ContractId → EStateM ContractError σ Contract) (level : Nat) {m : Machine σ}
  (running : Context) (callee : ContractId) (method : String) (args : Value)
    {contract : Contract} (outside : σ)
  (budget : Budget) (interval : UInt64)

theorem runEntry_hosted (t : Surroundings σ) (contract : Contract) :
    runEntry t contract (running.hosted callee method args) =
      if contract.declares .invoke then
        (Evaluator.whole t).run contract.program EntryPoint.invoke.name [.str method, args]
      else throw (.missingEntryPoint .invoke) := rfl

/-- A callee that a contract has entered runs `Machine.Beside` one that the host has. -/
theorem joined_entered (holds : m.host.view.reads.Holds entries)
    (declared : contract.declares .invoke = true) :
    let s : Surroundings σ := { entries := entries, limits := limits, resolve := resolve }
    let w := m.host.view.writes
    let child := running.child callee method args
    let context := running.hosted callee method args
    Joined (Machine.Beside entries w m.host.logs) ContractError.Inherited
      ((Evaluator.ofLevels s level).run contract.program EntryPoint.invoke.name child.entryArgs
        ((m.withOutside outside).entering s child))
      (runEntry { s with entries := entries.overlay w } contract context
        (Machine.start (Host.new (Meter.new budget interval) {} context) outside)) := by
  intro s w child context
  have coupling := couples_beside entries limits resolve w m.host.logs
  have related := coupling.related trivial level maxNesting
  have ran := coupling.parametric.lax.run related (Regime.admits_lax contract.program)
    EntryPoint.invoke.name [.str method, args] (Regime.each_lax _)
  have fresh : m.host.view.Beside entries w {} := by
    refine ⟨fun key => ?_, holds, ReadSet.holds_empty _⟩
    rw [Std.ExtTreeMap.getElem?_empty]
    rfl
  have begun : ((m.withOutside outside).entering s child).Beside entries w m.host.logs
      (Machine.start (Host.new (Meter.new budget interval) {} context) outside) :=
    ⟨rfl, rfl, .inr ⟨_, _, rfl, rfl, ⟨rfl, rfl, rfl, rfl⟩⟩, fresh, rfl⟩
  rw [Context.entryArgs_child, runEntry_hosted, if_pos declared]
  exact ran begun

/-- What comes of a callee that a contract has entered, told from what comes of `execute`. -/
theorem follows_entered (holds : m.host.view.reads.Holds entries)
    (declared : contract.declares .invoke = true) {x : Exec σ Value}
    (called : let s : Surroundings σ := { entries := entries, limits := limits, resolve := resolve }
      x m = (Evaluator.ofLevels s level).enter s contract (running.child callee method args)
        (m.withOutside outside)) :
    let s : Surroundings σ := { entries := entries, limits := limits, resolve := resolve }
    let w := m.host.view.writes
    let outcome := (execute { s with entries := entries.overlay w } contract
      (running.hosted callee method args) {} budget interval outside).1
    (∀ e, (x.finish m).1 = .error e → ¬ e.Inherited) →
      (∀ e, outcome.result = .error e → ¬ e.Inherited) →
        outcome.Follows w m.host.logs (x.finish m) := by
  intro s w outcome
  let child := running.child callee method args
  let context := running.hosted callee method args
  have ran := joined_entered entries limits resolve level running callee method args outside budget
    interval holds declared
  dsimp only at ran
  generalize inner : (Evaluator.ofLevels s level).run contract.program _ child.entryArgs
    ((m.withOutside outside).entering s child) = left at ran
  generalize outer : runEntry { s with entries := entries.overlay w } contract context
    (Machine.start (Host.new (Meter.new budget interval) {} context) outside) = right at ran
  cases ran with
  | @ok v next next' beside =>
    have ended : x.finish m = (.ok v, (m.withOutside outside).resume s child v.truthy next) :=
      Exec.finish_of_ok (called.trans (Evaluator.enter_of_ok inner))
    have came : outcome = next'.host.outcome (.ok v) := congrArg Prod.fst (execute_of_ok outer)
    rw [ended, came]
    intro _ _
    refine ⟨rfl, ?_, fun _ returned => ?_⟩
    · dsimp only
      rw [Machine.logs_resume]
      exact beside.logs_reverse
    · cases returned
      dsimp only
      unfold Machine.resume
      cases v.truthy with
      | true => exact beside.view.writes
      | false => rfl
  | @error e next next' beside =>
    have ended : x.finish m = (.error e, (m.withOutside outside).leaving next) :=
      Exec.finish_of_error (called.trans (Evaluator.enter_of_error inner))
    have came : outcome = next'.host.outcome (.error e) :=
      congrArg Prod.fst (execute_of_error outer)
    rw [ended, came]
    intro _ _
    refine ⟨rfl, beside.logs_reverse, fun v returned => ?_⟩
    cases returned
  | @left e next _ inherited =>
    have ended : x.finish m = (.error e, (m.withOutside outside).leaving next) :=
      Exec.finish_of_error (called.trans (Evaluator.enter_of_error inner))
    rw [ended]
    exact fun stops _ => absurd inherited (stops _ rfl)
  | @right e next' _ inherited =>
    have came : outcome = next'.host.outcome (.error e) :=
      congrArg Prod.fst (execute_of_error outer)
    rw [came]
    exact fun _ stops => absurd inherited (stops _ rfl)

end

/-- **A call by a contract refines a call by the host.**  Let the `running` contract do
`callContract` while writes are pending, over `entries` that hold what has been seen of
them (as they do all along a run).  Beside this, let the host `execute` the callee over
`entries` with the pending writes committed, with the same method, arguments and height,
and with the calling contract as the caller (`Context.hosted`).  Unless one of the two
fails with an error that is `Inherited`, they return the same value or fail with the same
error, and log the same lines.  After a truthy value the writes of the call by the host
are laid over those that were pending, and after any other value nothing else is pending
than before. -/
theorem callContract_refines (entries : Committed) (limits : StateLimits)
    (resolve : ContractId → EStateM ContractError σ Contract) (level : Nat) (m : Machine σ)
    {running : Context} (runs : m.host.current? = some running)
    (holds : m.host.view.reads.Holds entries) {target : String} (method : String) (args : Value)
    {callee : ContractId} (named : ContractId.ofHex target = .ok callee) {contract : Contract}
    {outside : σ} (found : resolve callee m.outside = .ok contract outside) (budget : Budget)
    (interval : UInt64) :
    let s : Surroundings σ := { entries := entries, limits := limits, resolve := resolve }
    let w := m.host.view.writes
    let nested := ((Evaluator.ofLevels s level).callContract s target method args).finish m
    let outcome := (execute { s with entries := entries.overlay w } contract
      (running.hosted callee method args) {} budget interval outside).1
    (∀ e, nested.1 = .error e → ¬ e.Inherited) → (∀ e, outcome.result = .error e → ¬ e.Inherited) →
      nested.1 = outcome.result ∧
        nested.2.host.logs.reverse = m.host.logs.reverse ++ outcome.logs ∧
        ∀ v, nested.1 = .ok v →
          if v.truthy then
            ∀ key : StateKey,
              nested.2.host.view.writes[key]? = (outcome.view.writes[key]?).or w[key]?
          else nested.2.host.view.writes = w := by
  intro s w nested outcome stops stops'
  suffices outcome.Follows w m.host.logs nested from ⟨this.result, this.logs, this.writes⟩
  have called := (Evaluator.ofLevels s level).callContract_eq s target method args m
  rw [named] at called
  dsimp only at called
  by_cases waiting : m.host.contexts.any (·.contract = callee) = true
  · -- The host could call a contract that waits here; the error is one that tells them apart.
    rw [if_pos waiting] at called
    have stopped : nested = (.error (.script (.reentrant callee)), m) :=
      Exec.finish_of_error called
    exact absurd trivial (stops _ (congrArg Prod.fst stopped))
  · let child := running.child callee method args
    rw [if_neg waiting, runs, Option.map_some, Evaluator.callFound_of_ok child found] at called
    by_cases declared : contract.declares .invoke = true
    · rw [if_pos declared] at called
      exact follows_entered entries limits resolve level running callee method args outside
        budget interval holds declared called stops stops'
    · rw [if_neg declared] at called
      let context := running.hosted callee method args
      let start := Machine.start (Host.new (Meter.new budget interval) {} context) outside
      have missing : runEntry { s with entries := entries.overlay w } contract context start =
          .error (.missingEntryPoint .invoke) start := by
        rw [runEntry_hosted, if_neg declared]
        rfl
      have ended : nested = (.error (.missingEntryPoint .invoke), m.withOutside outside) :=
        Exec.finish_of_error called
      have came : outcome = start.host.outcome (.error (.missingEntryPoint .invoke)) :=
        congrArg Prod.fst (execute_of_error missing)
      rw [ended, came]
      refine ⟨rfl, (List.append_nil _).symm, fun v returned => ?_⟩
      cases returned

namespace NestedCounter

/-- Adds one to what it stores, and answers the sum. -/
def counter : Contract :=
  .specimen 1
    [.evaluate (.call "PutState" [.str "n", .binary .add (.call "GetState" [.str "n"]) (.int 1)]),
      .result (some (.call "GetState" [.str "n"]))]

def key : StateKey := ⟨counter.id.space, "n"⟩

/-- One is committed. -/
def entries : Committed := (∅ : Committed).insert key [0x31]

def resolve (id : ContractId) : EStateM ContractError Unit Contract :=
  if id = counter.id then pure counter else throw (.contractNotFound id)

/-- The counter's surroundings when `entries` is committed. -/
def surroundings (entries : Committed) : Surroundings Unit :=
  { entries := entries, limits := {}, resolve := resolve }

/-- The context of another contract. -/
def running : Context := .forInvoke (Contract.specimen 0 []).id "" "count" .null 0

/-- The other contract runs while two is pending. -/
def machine : Machine Unit :=
  .start (.new (.new {} 1) { writes := (∅ : WriteSet).insert key (.put [0x32]) } running) ()

/-- What comes of it when the other contract does `callContract` on the counter. -/
def nested : Except ContractError Value × Machine Unit :=
  ((Evaluator.ofLevels (surroundings entries) 200).callContract (surroundings entries)
    counter.id.hex "count" .null).finish machine

/-- What comes of it when two is committed and the host does `execute` the counter. -/
def hosted : Outcome :=
  (execute (surroundings (entries.overlay machine.host.view.writes)) counter
    (running.hosted counter.id "count" .null) {} {} 1 ()).1

/-- `callContract_refines` where the counter answers three both times. -/
theorem three_both_times :
    machine.host.current? = some running ∧ machine.host.view.reads.Holds entries ∧
      ContractId.ofHex counter.id.hex = .ok counter.id ∧
      resolve counter.id machine.outside = .ok counter () ∧
      nested.1.toOption = some (.int 3) ∧ nested.1 = hosted.result ∧
      nested.2.host.view.writes[key]? =
        (hosted.view.writes[key]?).or machine.host.view.writes[key]? := by
  have holds : machine.host.view.reads.Holds entries := ReadSet.holds_empty _
  have named : ContractId.ofHex counter.id.hex = .ok counter.id := by
    have spelled : (ContractId.ofHex counter.id.hex).toOption.any (· = counter.id) = true := by
      decide +kernel
    obtain ⟨id, read, same⟩ := exists_ok_of_any spelled
    rw [read, of_decide_eq_true same]
  have found : resolve counter.id machine.outside = .ok counter () := by
    unfold resolve
    rw [if_pos rfl]
    rfl
  have three : nested.1.toOption = some (.int 3) := by decide +kernel
  have three' : hosted.result.toOption = some (.int 3) := by decide +kernel
  have ok_of_three : ∀ {x : Except ContractError Value}, x.toOption = some (.int 3) →
      x = .ok (.int 3) := by
    intro x h
    cases x with
    | ok v => cases h; rfl
    | error e => cases h
  have returned := ok_of_three three
  have returned' := ok_of_three three'
  have refines := callContract_refines entries {} resolve 200 machine rfl holds "count"
    .null named found {} 1
  -- The two runs are named before anything is compared with them: they are long to unfold.
  dsimp only at refines
  rw [← surroundings, ← surroundings, ← nested, ← hosted, returned'] at refines
  have same := refines (fun _ failed => nomatch returned.symm.trans failed)
    (fun _ failed => nomatch failed)
  have truthy : (Value.int 3).truthy = true := rfl
  have laid := same.2.2 _ returned
  rw [if_pos truthy] at laid
  exact ⟨rfl, holds, named, found, three, same.1.trans returned'.symm, laid key⟩

end NestedCounter

end LedgerScript
