import LedgerScript.Proofs.Ledger.History
import LedgerScript.Proofs.Machine.Outside

/-!
# The cache is not felt

Two ledgers that differ in nothing but their caches give the same answers and come
to the same committed state, because both find what is deployed.  Main statement:
`cache_unfelt`.
-/

namespace LedgerScript

/-- The step is no `evict`. -/
def Step.matters : Step → Bool
  | evict _ => false
  | _ => true

/-- The cache admits what `a` does and is `Faithful`, so what is deployed is found by
means of it. -/
def Cache.Serves (c : Cache) (entries : Committed) (a : Admission) : Prop :=
  c.admission = a ∧ c.Faithful entries

namespace Ledger

/-- Ledgers that are `Coherent` and `Coded`, and differ in nothing but their caches. -/
structure Twins (l l' : Ledger) : Prop where
  first : l.Coherent
  second : l'.Coherent
  coded : l.Coded
  store : l'.store = l.store
  config : ∃ capacity, l'.config = { l.config with cacheCapacity := capacity }

variable {l l' : Ledger} {e : Entry} {r : Request}

theorem Coherent.serves (h : l.Coherent) : l.cache.Serves l.store.entries l.config.admission :=
  ⟨h.admission, h.held.faithful⟩

/-! ## Finding contracts -/

/-- `resolve` finds the same contract by means of any two caches that are `Cache.Serves`. -/
theorem Coded.joined_resolve (h : l.Coded) {c c' : Cache}
    (serves : c.Serves l.store.entries l.config.admission)
    (serves' : c'.Serves l.store.entries l.config.admission) (id : ContractId) :
    Joined (fun a b : Cache => a.Serves l.store.entries l.config.admission ∧
        b.Serves l.store.entries l.config.admission) (fun _ => False)
      (resolve l.store.entries id c) (resolve l.store.entries id c') := by
  have later : ∀ {a b : Cache}, Ends (resolve l.store.entries id) a b →
      a.Serves l.store.entries l.config.admission →
        b.Serves l.store.entries l.config.admission := by
    intro a b ends served
    have grown := extends_resolve ends
    exact ⟨grown.admission.trans served.1, grown.faithful served.2⟩
  rcases h.resolve_cases serves.1 serves.2 id with
    ⟨unrecorded, lost⟩ | ⟨contract, next, deployed, found⟩
  · rw [lost, resolve_of_unrecorded unrecorded]
    exact .error ⟨serves, serves'⟩
  · rcases h.resolve_cases serves'.1 serves'.2 id with
      ⟨unrecorded, -⟩ | ⟨contract', next', deployed', found'⟩
    · exact absurd unrecorded deployed.recorded
    · cases deployed.unique deployed'
      rw [found, found']
      exact .ok ⟨later (.inl ⟨_, found⟩) serves, later (.inl ⟨_, found'⟩) serves'⟩

/-- `openDeployed` gives the same entry on ledgers with caches that are `Cache.Serves`. -/
theorem Coded.openDeployed_alike (h : l.Coded)
    (serves : l.cache.Serves l.store.entries l.config.admission)
    (serves' : l'.cache.Serves l.store.entries l.config.admission)
    (same : ∀ id, resolve l'.store.entries id = resolve l.store.entries id) (context : Context) :
    (∃ f c c', l.openDeployed context = .error ⟨f, c⟩ ∧
        l'.openDeployed context = .error ⟨f, c'⟩) ∨
      ∃ e c', l.openDeployed context = .ok e ∧
        l'.openDeployed context = .ok { e with cache := c' } := by
  have found := h.joined_resolve serves serves' context.contract
  unfold openDeployed
  rw [same]
  generalize resolve l.store.entries context.contract l.cache = left at found
  generalize resolve l.store.entries context.contract l'.cache = right at found
  cases found with
  | ok _ => exact .inr ⟨_, _, rfl, rfl⟩
  | error _ => exact .inl ⟨_, _, _, rfl, rfl⟩
  | left stopped => exact stopped.elim
  | right stopped => exact stopped.elim

namespace Twins

theorem admission (h : l.Twins l') : l'.config.admission = l.config.admission := by
  obtain ⟨capacity, same⟩ := h.config
  rw [same]
  rfl

theorem serves (h : l.Twins l') : l'.cache.Serves l.store.entries l.config.admission := by
  rw [← h.store, ← h.admission]
  exact h.second.serves

theorem alike (h : l.Twins l') :
    l.surroundings.Alike l'.surroundings fun a b =>
      a.Serves l.store.entries l.config.admission ∧
        b.Serves l.store.entries l.config.admission where
  entries := congrArg Store.entries h.store
  limits := by
    obtain ⟨capacity, same⟩ := h.config
    change l'.config.limits = l.config.limits
    rw [same]
    rfl
  resolve served id := by
    change Joined _ _ (resolve l.store.entries id _) (resolve l'.store.entries id _)
    rw [h.store]
    exact h.coded.joined_resolve served.1 served.2 id
  watch served _ _ _ := served

/-! ## Calls -/

theorem opening (h : l.Twins l') (r : Request) :
    (∃ f c c', l.opening r = .error ⟨f, c⟩ ∧ l'.opening r = .error ⟨f, c'⟩) ∨
      ∃ e c', l.opening r = .ok e ∧ l'.opening r = .ok { e with cache := c' } := by
  have deployed := h.coded.openDeployed_alike h.first.serves h.serves fun id => by rw [h.store]
  cases r with
  | invoke r => exact deployed _
  | query r => exact deployed _
  | deploy r =>
    have same : l'.isDeployed (ContractId.ofSource r.source) =
        l.isDeployed (ContractId.ofSource r.source) := by
      unfold isDeployed
      rw [h.store]
    rcases h.coded.isDeployed_cases (ContractId.ofSource r.source) with
      ⟨unrecorded, -⟩ | ⟨-, there⟩
    · have second := h.second.opening_deploy (r := r) (h.store ▸ unrecorded)
      rw [h.admission] at second
      -- Neither cache holds the contract, so both ledgers go by the same admission.
      rcases h.first.opening_deploy unrecorded with
          ⟨f, rejected, opened⟩ | ⟨contract, source, accepted, text, opened⟩ <;>
        rcases second with
          ⟨f', rejected', opened'⟩ | ⟨contract', source', accepted', text', opened'⟩
      · cases rejected.symm.trans rejected'
        exact .inl ⟨_, _, _, opened, opened'⟩
      · cases rejected.symm.trans accepted'
      · cases accepted.symm.trans rejected'
      · cases accepted.symm.trans accepted'
        cases text.symm.trans text'
        exact .inr ⟨_, _, opened, opened'⟩
    · exact .inl ⟨_, _, _, opening_deploy_of_deployed there,
        opening_deploy_of_deployed (same.trans there)⟩

theorem run (h : l.Twins l') {c' : Cache} (opened : l.opening r = .ok e)
    (opened' : l'.opening r = .ok { e with cache := c' }) :
    (Entry.run { e with cache := c' } l').1 = (e.run l).1 := by
  have served := h.first.faithful_of_entered opened
  have served' := h.second.faithful_of_entered opened'
  rw [h.store, h.admission] at served'
  have ran := execute_alike h.alike e.contract e.context e.view (l.config.budget e.context.kind)
    l.config.checkInterval ⟨served, served'⟩
  obtain ⟨capacity, same⟩ := h.config
  unfold Entry.run
  rw [same]
  exact ran.1

theorem verdict (h : l.Twins l') (c' : Cache) (outcome : Outcome) :
    Entry.verdict { e with cache := c' } l' outcome = e.verdict l outcome := by
  obtain ⟨capacity, same⟩ := h.config
  have candidate : Entry.candidate { e with cache := c' } l' outcome = e.candidate l outcome := by
    unfold Entry.candidate
    rw [same]
    rfl
  unfold Entry.verdict
  rw [candidate, h.store]
  rfl

/-- `Twins` give the same report on a request, and `answer` leaves them `Twins`. -/
theorem answer (h : l.Twins l') (r : Request) :
    (l'.answer r).1 = (l.answer r).1 ∧ (l.answer r).2.Twins (l'.answer r).2 := by
  have first := h.first.answer r
  have second := h.second.answer r
  have coded := h.coded.answer h.first r
  have config : ∃ capacity,
      (l'.answer r).2.config = { (l.answer r).2.config with cacheCapacity := capacity } := by
    rw [config_answer, config_answer]
    exact h.config
  rcases h.opening r with ⟨f, c, c', opened, opened'⟩ | ⟨e, c', opened, opened'⟩
  · rw [answer_of_refused opened] at first coded config ⊢
    rw [answer_of_refused opened'] at second config ⊢
    exact ⟨rfl, first, second, coded, h.store, config⟩
  · have ran := h.run opened opened'
    have judged := h.verdict (e := e) c' (e.run l).1
    rw [answer_of_entered opened] at first coded config ⊢
    rw [answer_of_entered opened'] at second config ⊢
    refine ⟨?_, first, second, coded, ?_, config⟩
    · dsimp only [answered]
      rw [ran, judged]
    · dsimp only [answered]
      rw [ran, judged]

end Twins

/-! ## Histories -/

theorem Twins.evict (h : l.Twins l') (id : ContractId) : (l.take (.evict id)).Twins l' :=
  ⟨h.first.take (.evict id), h.second, h.coded, h.store, h.config⟩

/-- `Twins` give the same `reports` and come to the same store if one of them takes only
the steps with `Step.matters`. -/
theorem Twins.after (h : l.Twins l') (steps : List Step) :
    l.reports steps = l'.reports (steps.filter Step.matters) ∧
      (l.after steps).store = (l'.after (steps.filter Step.matters)).store := by
  induction steps generalizing l l' with
  | nil => exact ⟨rfl, h.store.symm⟩
  | cons step rest ih =>
    cases step with
    | call r =>
      obtain ⟨same, next⟩ := h.answer r
      obtain ⟨reports, stores⟩ := ih next
      refine ⟨?_, stores⟩
      change (r, (l.answer r).1) :: (l.answer r).2.reports rest =
        (r, (l'.answer r).1) :: (l'.answer r).2.reports (rest.filter Step.matters)
      rw [same, reports]
    | evict id => exact ih (h.evict id)
    | refuse refusing =>
      refine ih ⟨h.first.take (.refuse refusing), h.second.take (.refuse refusing), h.coded, ?_,
        h.config⟩
      change ({ l'.store with refusing := refusing } : Store) =
        { l.store with refusing := refusing }
      rw [h.store]

/-- **The cache is not felt.**  Let `steps` and `steps'` differ only in steps without
`Step.matters`, that is in evictions.  Then `Ledger.new` with any other `cacheCapacity`
gives the same `reports` for `steps'` as for `steps`, and comes to the same store by
`after`. -/
theorem cache_unfelt (config : Config) (capacity : UInt64) (steps steps' : List Step)
    (same : steps.filter Step.matters = steps'.filter Step.matters) :
    let l := new config {}
    let l' := new { config with cacheCapacity := capacity } {}
    l.reports steps = l'.reports steps' ∧ (l.after steps).store = (l'.after steps').store := by
  intro l l'
  have coded : ∀ config : Config, (new config {}).Coded := fun _ _ recorded =>
    absurd Std.ExtTreeMap.getElem?_empty recorded
  have twins : l.Twins l' :=
    ⟨coherent_new _ _, coherent_new _ _, coded _, rfl, capacity, rfl⟩
  have self : l'.Twins l' :=
    ⟨coherent_new _ _, coherent_new _ _, coded _, rfl, capacity, rfl⟩
  obtain ⟨reports, stores⟩ := twins.after steps
  obtain ⟨reports', stores'⟩ := self.after steps'
  rw [reports, stores, reports', stores', same]
  exact ⟨rfl, rfl⟩

end Ledger

namespace Reload

/-- Answers the name of the method. -/
def deploy : DeployRequest where
  source := Text.utf8 "function Init()\x7breturn 1;\x7dfunction Invoke(m)\x7breturn m;\x7d"
  args := .null

def id : ContractId := ContractId.ofSource deploy.source

def invoke : InvokeRequest where
  contract := id
  method := "echo"
  args := .null

/-- The contract stays at hand. -/
def steps : List Step := [.call (.deploy deploy), .call (.invoke invoke)]

/-- The contract is dropped by `evict` and has to be compiled again. -/
def steps' : List Step := [.call (.deploy deploy), .evict id, .call (.invoke invoke)]

/-- `cache_unfelt` where a cache of one contract has compiled it twice. -/
theorem reload_unfelt :
    steps.filter Step.matters = steps'.filter Step.matters ∧
      let l := Ledger.new {} {}
      let l' := Ledger.new { cacheCapacity := 1 } {}
      (l'.after steps').cache.compiled = 2 ∧
        l.reports steps = l'.reports steps' ∧ (l.after steps).store = (l'.after steps').store := by
  have same : steps.filter Step.matters = steps'.filter Step.matters := rfl
  have twice : ((Ledger.new { cacheCapacity := 1 } {}).after steps').cache.compiled = 2 := by
    decide +kernel
  exact ⟨same, twice, Ledger.cache_unfelt {} 1 steps steps' same⟩

end Reload

end LedgerScript
