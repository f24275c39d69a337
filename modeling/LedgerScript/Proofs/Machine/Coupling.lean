import LedgerScript.Proofs.Machine.NestedCall
import LedgerScript.Proofs.Machine.Parametricity

/-!
# Two runs side by side

Two machines that stay alike while the same parts run on both come to the same
results.  What it takes of a likeness is said by `Couples`: one condition for each
thing that a part may look at or change.  Some errors may arise on one side alone;
from then on nothing is said of the two.  Main statements: `Couples.parametric`,
`Couples.related`.
-/

namespace LedgerScript

open Script (Program)

variable {σ τ α β : Type}

/-- `entryArgs` of a `child` are a method and its arguments. -/
theorem Context.entryArgs_child (c : Context) (callee : ContractId) (method : String)
    (args : Value) : (c.child callee method args).entryArgs = [.str method, args] := by
  have deep : (c.child callee method args).depth > 0 := by
    change (if c.depth = 65535 then c.depth else c.depth + 1) > 0
    split
    · rename_i full
      rw [full]
      decide
    · rename_i room
      rw [gt_iff_lt, UInt16.lt_iff_toNat_lt, UInt16.toNat_add]
      rw [← UInt16.toNat_inj] at room
      have bound := c.depth.toNat_lt
      change ¬ c.depth.toNat = 65535 at room
      change 0 < (c.depth.toNat + 1) % 2 ^ 16
      omega
  unfold entryArgs entryPoint
  rw [if_pos deep]
  rfl

/-! ## Results -/

/-- Two computations have come to the same result in states that are `like` each other, or
one of them has failed with an error that `stops`. -/
inductive Joined {S T : Type} (like : S → T → Prop) (stops : ContractError → Prop) :
    EStateM.Result ContractError S α → EStateM.Result ContractError T α → Prop
  | ok {a : α} {m : S} {n : T} (h : like m n) : Joined like stops (.ok a m) (.ok a n)
  | error {e : ContractError} {m : S} {n : T} (h : like m n) :
      Joined like stops (.error e m) (.error e n)
  | left {e : ContractError} {m : S} {r} (h : stops e) : Joined like stops (.error e m) r
  | right {e : ContractError} {n : T} {r} (h : stops e) : Joined like stops r (.error e n)

/-- A result with its state changed. -/
def mapState {ε S T : Type} (f : S → T) : EStateM.Result ε S α → EStateM.Result ε T α
  | .ok a m => .ok a (f m)
  | .error e m => .error e (f m)

/-- Results are `Joined` where their states are changed alike. -/
theorem Joined.mapState {S T S' T' : Type} {like : S → T → Prop} {like' : S' → T' → Prop}
    {stops : ContractError → Prop} {f : S → S'} {g : T → T'}
    {r : EStateM.Result ContractError S α} {r' : EStateM.Result ContractError T α}
    (h : Joined like stops r r') (hfg : ∀ {m n}, like m n → like' (f m) (g n)) :
    Joined like' stops (mapState f r) (mapState g r') := by
  cases h with
  | ok alike => exact .ok (hfg alike)
  | error alike => exact .error (hfg alike)
  | left stopped => exact .left stopped
  | right stopped => exact .right stopped

namespace Exec

theorem closing_eq (x : Exec σ α) (close : Machine σ → Machine σ) (m : Machine σ) :
    closing x close m = mapState close (x m) := by
  unfold closing
  cases x m <;> rfl

theorem metered_eq (x : Metered α) (m : Machine σ) :
    metered x m = mapState m.withMeter (x m.host.meter) := by
  unfold metered
  cases x m.host.meter <;> rfl

theorem viewing_eq (x : Viewing α) (m : Machine σ) :
    viewing x m = mapState m.withView (x m.host.view) := by
  unfold viewing
  cases x m.host.view <;> rfl

end Exec

/-- Computations that begin in states that are `like` each other come to results that are
`Joined`. -/
def Coupled {S T : Type} (like : S → T → Prop) (stops : ContractError → Prop)
    (x : EStateM ContractError S α) (y : EStateM ContractError T α) : Prop :=
  ∀ ⦃m : S⦄ ⦃n : T⦄, like m n → Joined like stops (x m) (y n)

/-- Contexts in which a contract is told the same and acts in the same `space`. -/
structure Context.Alike (c d : Context) : Prop where
  caller : d.caller = c.caller
  contract : d.contract = c.contract
  space : d.space = c.space
  height : d.height = c.height

theorem Context.Alike.child {c d : Context} (same : c.Alike d) (callee : ContractId)
    (method : String) (args : Value) :
    (c.child callee method args).Alike (d.child callee method args) :=
  ⟨congrArg ContractId.hex same.contract, rfl, rfl, same.height⟩

/-- On neither host a contract runs, or on both one in a context like the other's. -/
def Host.RunsAlike (a b : Host) : Prop :=
  a.current? = none ∧ b.current? = none ∨
    ∃ c d : Context, a.current? = some c ∧ b.current? = some d ∧ c.Alike d

theorem Host.runsAlike_of_eq {a b : Host} (same : b.current? = a.current?) : a.RunsAlike b := by
  cases running : a.current? with
  | none => exact .inl ⟨running, same.trans running⟩
  | some c => exact .inr ⟨c, c, running, same.trans running, ⟨rfl, rfl, rfl, rfl⟩⟩

theorem Host.RunsAlike.of_contexts {a b a' b' : Host} (h : a.RunsAlike b)
    (same : a'.contexts = a.contexts) (same' : b'.contexts = b.contexts) : a'.RunsAlike b' := by
  unfold RunsAlike current?
  rw [same, same']
  exact h

/-- What a likeness of machines must allow for, so that runs are `Coupled`. -/
structure Couples (s : Surroundings σ) (t : Surroundings τ)
    (like : Machine σ → Machine τ → Prop) (stops : ContractError → Prop) : Prop where
  sameVars : ∀ {m n}, like m n → n.vars = m.vars
  current : ∀ {m n}, like m n → m.host.RunsAlike n.host
  vars : ∀ {m n}, like m n → ∀ v, like { m with vars := v } { n with vars := v }
  charge : ∀ {x : Metered Unit}, Meter.Charge x →
    Coupled like stops (Exec.metered x) (Exec.metered x)
  discharge : ∀ {m n}, like m n → ∀ f : Meter → Meter,
    like (m.withMeter (f m.host.meter)) (n.withMeter (f n.host.meter))
  notice : ∀ {m n}, like m n → ∀ event, like (Exec.notice s event m) (Exec.notice t event n)
  getState : ∀ key, Coupled like stops (Exec.getState s key) (Exec.getState t key)
  putState : ∀ key v, Coupled like stops (Exec.putState s key v) (Exec.putState t key v)
  delState : ∀ key, Coupled like stops (Exec.delState s key) (Exec.delState t key)
  log : ∀ {m n}, like m n → ∀ line,
    like { m with host := { m.host with logs := line :: m.host.logs } }
      { n with host := { n.host with logs := line :: n.host.logs } }
  /-- A contract that waits on one side waits on the other, or the error stops. -/
  waits : ∀ {m n}, like m n → ∀ callee : ContractId,
    m.host.contexts.any (·.contract = callee) = n.host.contexts.any (·.contract = callee) ∨
      stops (.script (.reentrant callee))
  resolve : ∀ {m n}, like m n → ∀ id,
    Joined (fun a b => like (m.withOutside a) (n.withOutside b)) stops
      (s.resolve id m.outside) (t.resolve id n.outside)
  entering : ∀ {m n}, like m n → ∀ {c d : Context}, m.host.current? = some c →
    n.host.current? = some d → c.Alike d → ∀ callee method args,
    like (m.entering s (c.child callee method args)) (n.entering t (d.child callee method args))
  leaving : ∀ {m n next next'}, like m n → like next next' → m.Restores next →
    n.Restores next' → like (m.leaving next) (n.leaving next')
  rollback : ∀ {m n back back'}, like m n → like back back' →
    like (back.withView (back.host.view.rollback m.host.view.writes))
      (back'.withView (back'.host.view.rollback n.host.view.writes))

namespace Coupled

section

variable {S T : Type} {like : S → T → Prop} {stops : ContractError → Prop}
  {x : EStateM ContractError S α} {y : EStateM ContractError T α}

theorem pure (a : α) :
    Coupled like stops (pure a : EStateM ContractError S α) (pure a) :=
  fun _ _ h => .ok h

theorem throw (e : ContractError) :
    Coupled like stops (throw e : EStateM ContractError S α) (throw e) :=
  fun _ _ h => .error h

theorem bind {f : α → EStateM ContractError S β} {g : α → EStateM ContractError T β}
    (hx : Coupled like stops x y) (hf : ∀ a, Coupled like stops (f a) (g a)) :
    Coupled like stops (x >>= f) (y >>= g) := by
  intro m n h
  have first := hx h
  generalize hm : x m = left at first
  generalize hn : y n = right at first
  cases first with
  | ok alike =>
    rw [bind_of_ok hm, bind_of_ok hn]
    exact hf _ alike
  | error alike =>
    rw [bind_of_error hm, bind_of_error hn]
    exact .error alike
  | left stopped =>
    rw [bind_of_error hm]
    exact .left stopped
  | right stopped =>
    rw [bind_of_error hn]
    exact .right stopped

theorem modify {f : S → S} {g : T → T} (hf : ∀ {m n}, like m n → like (f m) (g n)) :
    Coupled like stops (modify f : EStateM ContractError S PUnit) (modify g) :=
  fun _ _ h => .ok (hf h)

end

variable {like : Machine σ → Machine τ → Prop} {stops : ContractError → Prop}

theorem closing {x : Exec σ α} {y : Exec τ α} {close : Machine σ → Machine σ}
    {close' : Machine τ → Machine τ} (hx : Coupled like stops x y)
    (hc : ∀ {m n}, like m n → like (close m) (close' n)) :
    Coupled like stops (Exec.closing x close) (Exec.closing y close') := by
  intro m n h
  rw [Exec.closing_eq, Exec.closing_eq]
  exact (hx h).mapState hc

/-- `metered` is coupled where the changes of the meter are. -/
theorem metered {x : Metered α} {y : Metered α}
    (h : ∀ {m n}, like m n → Joined (fun a b => like (m.withMeter a) (n.withMeter b)) stops
      (x m.host.meter) (y n.host.meter)) :
    Coupled like stops (Exec.metered x) (Exec.metered y) := by
  intro m n alike
  rw [Exec.metered_eq, Exec.metered_eq]
  exact (h alike).mapState id

section Contexts

variable (current : ∀ {m n}, like m n → m.host.RunsAlike n.host)

include current

theorem withContext {f : Context → Exec σ α} {g : Context → Exec τ α}
    (hfg : ∀ {c d : Context}, c.Alike d → Coupled like stops (f c) (g d)) :
    Coupled like stops (Exec.withContext f) (Exec.withContext g) := by
  intro m n alike
  rcases current alike with ⟨running, other⟩ | ⟨c, d, running, other, same⟩
  · rw [Exec.withContext_of_none running, Exec.withContext_of_none other]
    exact .error alike
  · rw [Exec.withContext_of_some running, Exec.withContext_of_some other]
    exact hfg same alike

/-- `access` is coupled where the accesses to the views are. -/
theorem access (f g : Namespace → Viewing α)
    (h : ∀ {m n} (own : Namespace), like m n →
      Joined (fun a b => like (m.withView a) (n.withView b)) stops
        (f own m.host.view) (g own n.host.view)) :
    Coupled like stops (Exec.withContext fun c => Exec.viewing (f c.space))
      (Exec.withContext fun c => Exec.viewing (g c.space)) := by
  refine withContext current fun {c d} same m n alike => ?_
  rw [same.space, Exec.viewing_eq, Exec.viewing_eq]
  exact (h c.space alike).mapState id

end Contexts

end Coupled

namespace Couples

variable {s : Surroundings σ} {t : Surroundings τ} {like : Machine σ → Machine τ → Prop}
  {stops : ContractError → Prop}

section Parts

variable (h : Couples s t like stops)

include h

theorem coupled_vars (f : Variables → Variables) :
    Coupled like stops (Exec.vars f : Exec σ Unit) (Exec.vars f) := by
  intro m n alike
  have changed := h.vars alike (f m.vars)
  have same : f n.vars = f m.vars := congrArg f (h.sameVars alike)
  unfold Exec.vars
  rw [same]
  exact .ok changed

theorem coupled_lookup (name : String) :
    Coupled like stops (Exec.lookup name : Exec σ Slot) (Exec.lookup name) := by
  intro m n alike
  have same := h.sameVars alike
  cases hm : m.vars.find? name with
  | some slot =>
    rw [Exec.lookup_of_some hm, Exec.lookup_of_some (same ▸ hm)]
    exact .ok alike
  | none =>
    rw [Exec.lookup_of_none hm, Exec.lookup_of_none (same ▸ hm)]
    exact .error alike

theorem coupled_change (name : String) (held : Value) (x : Value.Change) :
    Coupled like stops (Exec.change name held x : Exec σ Unit) (Exec.change name held x) := by
  intro m n alike
  have same := h.sameVars alike
  cases changed : x held with
  | ok _ v =>
    rw [Exec.change_of_ok changed, Exec.change_of_ok changed, same]
    exact .ok (h.vars alike _)
  | error f v =>
    rw [Exec.change_of_error changed, Exec.change_of_error changed, same]
    exact .error (h.vars alike _)

theorem coupled_store (root : String) (keys : List PathKey) (v : Value) :
    Coupled like stops (Evaluator.store root keys v : Exec σ Unit)
      (Evaluator.store root keys v) := by
  refine .bind (h.coupled_lookup root) fun slot => ?_
  split
  · exact .throw _
  · exact h.coupled_change root slot.value (Value.writePath v keys)

theorem coupled_told (f : String → ContractId → UInt64 → Value) :
    Coupled like stops (Exec.told f : Exec σ Value) (Exec.told f) := by
  refine .withContext h.current fun same => ?_
  rw [same.caller, same.contract, same.height]
  exact .pure _

theorem coupled_logLine (line : String) :
    Coupled like stops (Exec.logLine line : Exec σ Unit) (Exec.logLine line) :=
  .withContext h.current fun _ _ _ alike => .ok (h.log alike line)

theorem coupled_inScope {x : Exec σ α} {y : Exec τ α} (hx : Coupled like stops x y) :
    Coupled like stops (Exec.inScope x) (Exec.inScope y) := by
  refine .bind (h.coupled_vars _) fun _ => .closing hx fun {m n} alike => ?_
  have changed := h.vars alike m.vars.popScope
  rw [h.sameVars alike]
  exact changed

theorem coupled_inFrame (scope : Scope) {x : Exec σ α} {y : Exec τ α}
    (hx : Coupled like stops x y) :
    Coupled like stops (Exec.inFrame scope x) (Exec.inFrame scope y) := by
  refine .bind (h.charge .frame) fun _ => .bind (h.coupled_vars _) fun _ =>
    .closing hx fun {m n} alike => ?_
  have changed := h.vars (h.discharge alike Meter.exitFrame) m.vars.popFrame
  rw [h.sameVars alike]
  exact changed

theorem coupled_nested {x : Exec σ α} {y : Exec τ α} (hx : Coupled like stops x y) :
    Coupled like stops (Evaluator.nested s x) (Evaluator.nested t y) :=
  .bind (h.charge .nesting) fun _ => .bind (.modify fun alike => h.notice alike .entered) fun _ =>
    .closing (.bind (h.charge (.steps 1)) fun _ => hx) fun alike =>
      h.notice (h.discharge alike Meter.exitNesting) .left

/-! ### Nested calls -/

theorem resume {m next : Machine σ} {n next' : Machine τ} (alike : like m n)
    (later : like next next') (back : m.Restores next) (back' : n.Restores next')
    (child child' : Context) (same : child'.contract = child.contract) (truthy : Bool) :
    like (m.resume s child truthy next) (n.resume t child' truthy next') := by
  have left := h.notice (h.leaving alike later back back') (.returned child.contract truthy)
  unfold Machine.resume
  rw [same]
  cases truthy with
  | true => exact left
  | false => exact h.rollback alike left

variable {x : Evaluator σ} {y : Evaluator τ} (hx : x.KeepsContexts) (hy : y.KeepsContexts)
  (hxy : ∀ p name args, Coupled like stops (x.run p name args) (y.run p name args))

include hx hy hxy

theorem joined_enter (contract : Contract) {m : Machine σ} {n : Machine τ} (alike : like m n)
    {c d : Context} (running : m.host.current? = some c) (running' : n.host.current? = some d)
    (same : c.Alike d) (callee : ContractId) (method : String) (args : Value) :
    Joined like stops (x.enter s contract (c.child callee method args) m)
      (y.enter t contract (d.child callee method args) n) := by
  have sameArgs : (d.child callee method args).entryArgs =
      (c.child callee method args).entryArgs := by
    rw [Context.entryArgs_child, Context.entryArgs_child]
  have entered := h.entering alike running running' same callee method args
  have ran := hxy contract.program EntryPoint.invoke.name
    (c.child callee method args).entryArgs entered
  generalize hm : x.run contract.program EntryPoint.invoke.name
    (c.child callee method args).entryArgs
    (m.entering s (c.child callee method args)) = left at ran
  rw [← sameArgs] at ran
  generalize hn : y.run contract.program EntryPoint.invoke.name
    (d.child callee method args).entryArgs
    (n.entering t (d.child callee method args)) = right at ran
  cases ran with
  | ok later =>
    rw [Evaluator.enter_of_ok hm, Evaluator.enter_of_ok hn]
    exact .ok (h.resume alike later (hx.leaving (.inl ⟨_, hm⟩)) (hy.leaving (.inl ⟨_, hn⟩))
      _ _ rfl _)
  | error later =>
    rw [Evaluator.enter_of_error hm, Evaluator.enter_of_error hn]
    exact .error (h.leaving alike later (hx.leaving (.inr ⟨_, hm⟩)) (hy.leaving (.inr ⟨_, hn⟩)))
  | left stopped =>
    rw [Evaluator.enter_of_error hm]
    exact .left stopped
  | right stopped =>
    rw [Evaluator.enter_of_error hn]
    exact .right stopped

theorem joined_found {callee : ContractId} {contract : Contract} {m : Machine σ} {n : Machine τ}
    {a : σ} {b : τ} (alike : like (m.withOutside a) (n.withOutside b))
    (hm : s.resolve callee m.outside = .ok contract a)
    (hn : t.resolve callee n.outside = .ok contract b) (method : String) (args : Value) :
    Joined like stops
      (x.callFound s callee (m.host.current?.map (·.child callee method args)) m)
      (y.callFound t callee (n.host.current?.map (·.child callee method args)) n) := by
  unfold Evaluator.callFound
  rw [hm, hn]
  dsimp only
  split
  · rcases h.current alike with ⟨running, other⟩ | ⟨c, d, running, other, same⟩
    · rw [show m.host.current? = none from running, show n.host.current? = none from other]
      exact .error alike
    · rw [show m.host.current? = some c from running, show n.host.current? = some d from other]
      exact h.joined_enter hx hy hxy contract alike running other same callee method args
  · exact .error alike

theorem joined_callFound {m : Machine σ} {n : Machine τ} (alike : like m n)
    (callee : ContractId) (method : String) (args : Value) :
    Joined like stops
      (x.callFound s callee (m.host.current?.map (·.child callee method args)) m)
      (y.callFound t callee (n.host.current?.map (·.child callee method args)) n) := by
  have found := h.resolve alike callee
  generalize hm : s.resolve callee m.outside = left at found
  generalize hn : t.resolve callee n.outside = right at found
  cases found with
  | ok alike =>
    exact h.joined_found hx hy hxy alike hm hn method args
  | error alike =>
    rw [Evaluator.callFound_of_error _ hm, Evaluator.callFound_of_error _ hn]
    exact .error alike
  | left stopped =>
    rw [Evaluator.callFound_of_error _ hm]
    exact .left stopped
  | right stopped =>
    rw [Evaluator.callFound_of_error _ hn]
    exact .right stopped

theorem coupled_callContract (target method : String) (args : Value) :
    Coupled like stops (x.callContract s target method args)
      (y.callContract t target method args) := by
  intro m n alike
  rw [Evaluator.callContract_eq, Evaluator.callContract_eq]
  cases ContractId.ofHex target with
  | error f => exact .error alike
  | ok callee =>
    dsimp only
    rcases h.waits alike callee with same | stopped
    · rw [← same]
      split
      · exact .error alike
      · exact h.joined_callFound hx hy hxy alike callee method args
    · split
      · exact .left stopped
      · split
        · exact .right stopped
        · exact h.joined_callFound hx hy hxy alike callee method args

end Parts

/-- `Couples` of the parts makes every run `Coupled`. -/
theorem parametric (h : Couples s t like stops) :
    Parametric s t fun _ _ x y => Coupled like stops x y where
  pure _ _ a := .pure a
  bind := .bind
  widen := id
  fault f := .throw (.script f)
  missing _ := .throw _
  ground alike := .error alike
  turns alike := .error alike
  steps n := h.charge (.steps n)
  memory n := h.charge (.memory n)
  lookup := h.coupled_lookup
  declareGlobal _ _ := h.coupled_vars _
  declare _ _ := h.coupled_vars _
  store := h.coupled_store
  inScope := h.coupled_inScope
  inFrame scope _ _ hx := h.coupled_inFrame scope hx
  nested := h.coupled_nested
  builtin f := .modify fun alike => h.notice alike (.builtin f)
  hosted f := .modify fun alike => h.notice alike (.hosted f)
  getState := h.getState
  putState := h.putState
  delState := h.delState
  told := h.coupled_told
  logLine := h.coupled_logLine
  callContract hx hy hxy := h.coupled_callContract hx hy hxy

/-- Two levels need not be the same where `nestingExhausted` is an error that `stops`. -/
theorem related (h : Couples s t like stops) (ground : stops Meter.nestingExhausted) (n k : Nat) :
    Evaluator.RelatedOn .lax (fun _ _ _ _ x y => Coupled like stops x y)
      (Evaluator.ofLevels s n) (Evaluator.ofLevels t k) := by
  -- On level 0 every run stops, whatever the other side does.
  induction n generalizing k with
  | zero => exact ⟨fun _ _ _ _ _ _ => .left ground, fun _ _ _ _ _ _ => .left ground⟩
  | succ n ih =>
    cases k with
    | zero => exact ⟨fun _ _ _ _ _ _ => .right ground, fun _ _ _ _ _ _ => .right ground⟩
    | succ k =>
      exact h.parametric.lax.above (Evaluator.keepsContexts_ofLevels s n)
        (Evaluator.keepsContexts_ofLevels t k) (ih k)

end Couples

end LedgerScript
