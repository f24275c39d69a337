import LedgerScript.Proofs.Machine.Conduct

/-!
# What contracts that did not run have stored

A run over committed state is compared with the run over another committed
state that agrees with it on the namespaces of all contracts that have run.
Main statement: `execute_noninterference`.
-/

namespace LedgerScript

variable {σ α β : Type}

/-! ## Accesses -/

/-- Two committed states have the same entries in some namespaces. -/
def Committed.AgreesOn (entries other : Committed) (spaces : Spaces) : Prop :=
  ∀ key : StateKey, key.space ∈ spaces → other[key]? = entries[key]?

theorem Committed.AgreesOn.mono {entries other : Committed} {small large : Spaces}
    (h : entries.AgreesOn other large) (sub : ∀ space, space ∈ small → space ∈ large) :
    entries.AgreesOn other small :=
  fun key mem => h key (sub key.space mem)

/-- `get` depends only on the namespace that is read. -/
theorem Access.get_congr {entries other : Committed} {own : Namespace}
    (agree : ∀ key : StateKey, key.space = own → other[key]? = entries[key]?)
    (limits : StateLimits) (raw : String) (view : View) :
    Access.get other limits own raw view = Access.get entries limits own raw view := by
  cases hk : resolveKey own raw limits.maxKeyLength.toNat with
  | error e => rw [Access.get_of_error hk, Access.get_of_error hk]
  | ok key =>
    have same := agree key (resolveKey_eq_ok hk).1
    rw [Access.get_of_ok hk, Access.get_of_ok hk]
    unfold View.look View.found
    rw [same]

/-! ## Runs -/

/-- The namespaces of all contracts that have run when `x` is over. -/
def Exec.touched (x : Exec σ α) (m : Machine σ) : Spaces := (x.finish m).2.host.executed

theorem Exec.touched_of_ok {x : Exec σ α} {m next : Machine σ} {a : α} (h : x m = .ok a next) :
    x.touched m = next.host.executed := by
  unfold Exec.touched
  rw [Exec.finish_of_ok h]

theorem Exec.touched_of_error {x : Exec σ α} {m next : Machine σ} {e : ContractError}
    (h : x m = .error e next) : x.touched m = next.host.executed := by
  unfold Exec.touched Exec.finish
  rw [h]

/-- `y` does over `other` what `x` does over `entries`, provided that they
agree on the namespaces of all contracts that have run when `x` is over. -/
structure Exec.Undisturbed (entries other : Committed) (x y : Exec σ α) : Prop where
  conducts : x.Leads (Machine.Conducts entries) (Machine.Conducts entries)
  same : ∀ m, m.host.Entered → entries.AgreesOn other (x.touched m) → y m = x m

namespace Exec.Undisturbed

variable {s : Surroundings σ} {other : Committed}

/-- What is the same part on both sides is `Undisturbed`. -/
theorem ofSame {x : Exec σ α}
    (conducts : x.Leads (Machine.Conducts s.entries) (Machine.Conducts s.entries)) :
    x.Undisturbed s.entries other x :=
  ⟨conducts, fun _ _ _ => rfl⟩

theorem metered {x : Metered α} (hx : ∀ {m next}, Ends x m next → Meter.Follows m next) :
    (Exec.metered x : Exec σ α).Undisturbed s.entries other (Exec.metered x) :=
  ofSame ((own_conduct s).leads_metered fun _ _ ends => Host.conduct_meter (hx ends))

theorem charged {x : Metered α} (hx : ∀ {m next}, Ends x m next → Meter.Charged m next) :
    (Exec.metered x : Exec σ α).Undisturbed s.entries other (Exec.metered x) :=
  metered fun ends => (hx ends).toFollows

theorem bind {x y : Exec σ α} {f g : α → Exec σ β}
    (hx : x.Undisturbed s.entries other y) (hf : ∀ a, (f a).Undisturbed s.entries other (g a)) :
    (x >>= f).Undisturbed s.entries other (y >>= g) := by
  refine ⟨(own_conduct s).leads_bind hx.conducts fun a => (hf a).conducts,
    fun m running agree => ?_⟩
  cases hm : x m with
  | error e next =>
    unfold Exec.touched Exec.finish at agree
    rw [bind_of_error hm] at agree
    have first := hx.same m running (by rw [Exec.touched_of_error hm]; exact agree)
    rw [bind_of_error hm, bind_of_error (first.trans hm)]
  | ok a next =>
    have mid := hx.conducts.ok hm
    have running' : next.host.Entered := mid.entered running
    have touched : (x >>= f).touched m = (f a).touched next := by
      unfold Exec.touched Exec.finish
      rw [bind_of_ok hm]
    rw [touched] at agree
    -- the rest only adds to the namespaces on which the states must agree
    have later : ∀ space, space ∈ next.host.executed → space ∈ (f a).touched next := by
      intro space mem
      exact ((hf a).conducts.ends (Exec.ends_finish (f a) next)).executed space mem
    have first := hx.same m running (by rw [Exec.touched_of_ok hm]; exact agree.mono later)
    rw [bind_of_ok hm, bind_of_ok (first.trans hm)]
    exact (hf a).same next running' agree

/-- `Exec.closing` is `Undisturbed` where what it closes by runs no contract. -/
theorem closing {x y : Exec σ α} {close : Machine σ → Machine σ}
    (hx : x.Undisturbed s.entries other y) (hc : ∀ m, Machine.Conducts s.entries m (close m))
    (ran : ∀ m, (close m).host.executed = m.host.executed) :
    (Exec.closing x close).Undisturbed s.entries other (Exec.closing y close) := by
  refine ⟨(own_conduct s).leads_closing hx.conducts hc, fun m running agree => ?_⟩
  have touched : (Exec.closing x close).touched m = x.touched m := by
    unfold Exec.touched Exec.finish Exec.closing
    cases x m <;> exact ran _
  rw [touched] at agree
  unfold Exec.closing
  rw [hx.same m running agree]

theorem getState (s : Surroundings σ) (other : Committed) (key : String) :
    (Exec.getState s key).Undisturbed s.entries other
      (Exec.getState { s with entries := other } key) := by
  have conducts := (own_conduct s).leads_getState key
  refine ⟨conducts, fun m running agree => ?_⟩
  have touched := (conducts.ends (Exec.ends_finish _ m)).executed
  unfold Exec.getState
  cases runs : m.host.current? with
  | none => rw [Exec.withContext_of_none runs, Exec.withContext_of_none runs]
  | some c =>
    have own : ∀ k : StateKey, k.space = c.space → other[k]? = s.entries[k]? := fun k space =>
      agree k (touched _ (running _ (Host.space?_of_current runs space)))
    rw [Exec.withContext_of_some runs, Exec.withContext_of_some runs]
    unfold Exec.viewing
    dsimp only
    rw [Access.get_congr own]

/-! ### Nested calls -/

theorem enter {x y : Evaluator σ} {contract : Contract} {child : Context}
    (hxy : (x.run contract.program EntryPoint.invoke.name child.entryArgs).Undisturbed s.entries
      other (y.run contract.program EntryPoint.invoke.name child.entryArgs))
    {m : Machine σ} (agree : s.entries.AgreesOn other ((x.enter s contract child).touched m)) :
    y.enter { s with entries := other } contract child m = x.enter s contract child m := by
  have running : (m.entering s child).host.Entered := Host.entered_entering m.host child
  have touched : (x.enter s contract child).touched m =
      (x.run contract.program EntryPoint.invoke.name child.entryArgs).touched
        (m.entering s child) := by
    unfold Exec.touched Exec.finish Evaluator.enter
    cases x.run contract.program EntryPoint.invoke.name child.entryArgs (m.entering s child) with
    | error e next => rfl
    | ok v next =>
      dsimp only
      unfold Machine.resume
      cases v.truthy <;> rfl
  rw [touched] at agree
  have ran := hxy.same (m.entering s child) running agree
  have entering : m.entering { s with entries := other } child = m.entering s child := rfl
  unfold Evaluator.enter
  rw [entering, ran]
  rfl

theorem callFound {x y : Evaluator σ}
    (hxy : ∀ p name args, (x.run p name args).Undisturbed s.entries other (y.run p name args))
    {callee : ContractId} {child? : Option Context} {m : Machine σ}
    (agree : s.entries.AgreesOn other ((x.callFound s callee child?).touched m)) :
    y.callFound { s with entries := other } callee child? m = x.callFound s callee child? m := by
  unfold Exec.touched Exec.finish at agree
  unfold Evaluator.callFound at agree ⊢
  dsimp only at agree ⊢
  cases hr : s.resolve callee m.outside with
  | error e outside => rfl
  | ok contract outside =>
    rw [hr] at agree
    dsimp only at agree ⊢
    split
    · rename_i declared
      rw [if_pos declared] at agree
      cases child? with
      | none => rfl
      | some child => exact enter (hxy _ _ _) agree
    · rfl

theorem callContract {x y : Evaluator σ} (kept : x.KeepsContexts)
    (hxy : ∀ p name args, (x.run p name args).Undisturbed s.entries other (y.run p name args))
    (target method : String) (args : Value) :
    (x.callContract s target method args).Undisturbed s.entries other
      (y.callContract { s with entries := other } target method args) := by
  have conducts := (allows_conduct s).leads_callContract kept (p := {})
    (fun p name args => (hxy p name args).conducts) target method args
  refine ⟨conducts, fun m running agree => ?_⟩
  unfold Exec.touched Exec.finish at agree
  rw [Evaluator.callContract_eq] at agree ⊢
  rw [Evaluator.callContract_eq]
  cases hc : ContractId.ofHex target with
  | error f => rfl
  | ok callee =>
    rw [hc] at agree
    dsimp only at agree ⊢
    split
    · rfl
    · rename_i fresh
      rw [if_neg fresh] at agree
      exact callFound hxy agree

end Exec.Undisturbed

/-- Every part of a run is `Undisturbed` by what contracts that have not run have stored. -/
theorem parametric_undisturbed (s : Surroundings σ) (other : Committed) :
    Parametric s { s with entries := other } fun _ _ x y => x.Undisturbed s.entries other y where
  pure _ _ a := .ofSame ((own_conduct s).leads_pure a)
  bind := .bind
  widen := id
  fault _ := .ofSame ((own_conduct s).leads_throw _)
  missing _ := .ofSame ((own_conduct s).leads_throw _)
  ground := .ofSame ((own_conduct s).leads_throw _)
  turns := .ofSame ((own_conduct s).leads_throw _)
  steps _ := .charged Meter.charged_chargeSteps
  memory _ := .charged Meter.charged_chargeMemory
  lookup name := .ofSame ((own_conduct s).leads_lookup name)
  declareGlobal _ _ := .ofSame ((own_conduct s).leads_vars _)
  declare _ _ := .ofSame ((own_conduct s).leads_vars _)
  store root keys v := .ofSame ((own_conduct s).leads_store root keys v)
  inScope hx :=
    .bind (.ofSame ((own_conduct s).leads_vars _)) fun _ =>
      .closing hx (fun m => .refl m.host) fun _ => rfl
  inFrame _ _ _ hx :=
    .bind (.metered Meter.follows_enterFrame) fun _ =>
      .bind (.ofSame ((own_conduct s).leads_vars _)) fun _ =>
        .closing hx (fun m => Host.conduct_meter (Meter.follows_exitFrame m.host.meter))
          fun _ => rfl
  nested hx :=
    .bind (.charged Meter.charged_enterNesting) fun _ =>
      .bind (.ofSame (Exec.Leads.modify fun m => .refl m.host)) fun _ =>
        .closing (.bind (.charged Meter.charged_chargeSteps) fun _ => hx)
          (fun m => Host.conduct_meter (Meter.charged_exitNesting m.host.meter).toFollows)
          fun _ => rfl
  builtin _ := .ofSame (Exec.Leads.modify fun m => .refl m.host)
  hosted _ := .ofSame (Exec.Leads.modify fun m => .refl m.host)
  getState := .getState s other
  putState key v := .ofSame ((own_conduct s).leads_putState key v)
  delState key := .ofSame ((own_conduct s).leads_delState key)
  told f := .ofSame ((own_conduct s).leads_told f)
  logLine line := .ofSame ((own_conduct s).leads_logLine line)
  callContract kept _ hxy := .callContract kept hxy

/-- **Contracts that do not run cannot be felt.**  `execute` over committed state that
differs only in namespaces which it has not `executed` comes to the same outcome: the same
result or error, usage, pending writes, reads, logs and namespaces. -/
theorem execute_noninterference (s : Surroundings σ) (other : Committed) (contract : Contract)
    (context : Context) (view : View) (budget : Budget) (interval : UInt64) (outside : σ)
    (agree : ∀ key : StateKey,
      key.space ∈ (execute s contract context view budget interval outside).1.executed →
        other[key]? = s.entries[key]?) :
    execute { s with entries := other } contract context view budget interval outside =
      execute s contract context view budget interval outside := by
  have running := Host.entered_new (Meter.new budget interval) view context
  have same := ((parametric_undisturbed s other).runEntry contract context).same
    (Machine.start (Host.new (Meter.new budget interval) view context) outside) running agree
  unfold execute Exec.finish
  dsimp only
  rw [same]

namespace IdleContract

/-- Answers what it stores. -/
def callee : Contract := .specimen 1 [.result (some (.call "GetState" [.str "n"]))]

/-- Adds what it stores and what the other one answers. -/
def caller : Contract :=
  .specimen 0
    [.result (some
      (.binary .add (.call "GetState" [.str "n"])
        (.call "CallContract" [.str callee.id.hex, .str "count", .null])))]

/-- Stores as well, and does not run. -/
def idle : Contract := .specimen 2 []

/-- Each of the three stores a digit. -/
def surroundings : Surroundings Unit where
  entries :=
    (((∅ : Committed).insert ⟨caller.id.space, "n"⟩ [0x31]).insert ⟨callee.id.space, "n"⟩
      [0x32]).insert ⟨idle.id.space, "n"⟩ [0x33]
  limits := {}
  resolve id := if id = callee.id then pure callee else throw (.contractNotFound id)

/-- The one that does not run stores another digit. -/
def other : Committed := surroundings.entries.insert ⟨idle.id.space, "n"⟩ [0x39]

/-- The caller's invocation. -/
def run (s : Surroundings Unit) : Outcome × Unit :=
  execute s caller (.forInvoke caller.id "" "count" .null 0) {} {} 1 ()

/-- `execute_noninterference` for the digit that the idle contract has stored. -/
theorem run_unfelt :
    (∀ key : StateKey, key.space ∈ (run surroundings).1.executed →
        other[key]? = surroundings.entries[key]?) ∧
      run { surroundings with entries := other } = run surroundings := by
  have silent : idle.id.space ∉ (run surroundings).1.executed := by decide +kernel
  have agree : ∀ key : StateKey, key.space ∈ (run surroundings).1.executed →
      other[key]? = surroundings.entries[key]? := by
    intro key mem
    unfold other
    rw [Std.ExtTreeMap.getElem?_insert]
    split
    · rename_i same
      rw [← Std.compare_eq_iff_eq.1 same] at mem
      exact absurd mem silent
    · rfl
  refine ⟨agree, ?_⟩
  unfold run at agree ⊢
  exact execute_noninterference surroundings other caller _ {} {} 1 () agree

example : (run surroundings).1.result.toOption = some (.int 3) := by decide +kernel

end IdleContract

end LedgerScript
