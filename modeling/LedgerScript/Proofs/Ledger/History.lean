import LedgerScript.Proofs.Ledger.Coherence

/-!
# What happens to a ledger

A ledger takes calls, drops contracts from its cache, and has a store that can
begin or cease to refuse commits (`Step`).  Meanwhile its cache stays coherent
(`Coherent.after`), and a code record that is there stays as it is
(`code_after_of_recorded`).  Main statement: `deploy_once`.
-/

namespace LedgerScript

/-! ## Code records -/

/-- What happens to a `Ledger`. -/
inductive Step where
  | call (r : Request)
  /-- A contract is dropped from the cache. -/
  | evict (id : ContractId)
  /-- The store begins or ceases to refuse commits. -/
  | refuse (refusing : Bool)

namespace Ledger

/-- The step is a `deploy` of the contract, and it succeeds. -/
def Founds (l : Ledger) (id : ContractId) : Step → Prop
  | .call (.deploy r) =>
    ContractId.ofSource r.source = id ∧ (l.deploy r).1.settlement.success = true
  | _ => False

instance (l : Ledger) (id : ContractId) (step : Step) : Decidable (l.Founds id step) := by
  unfold Founds
  split <;> infer_instance

variable {l : Ledger} {e : Entry}

/-- The `verdict` on a deploy that succeeds adds the `CodeRecord` of its contract. -/
theorem code_of_success (ready : e.Ready l) {source : String} (brought : e.source = some source)
    (success : (e.verdict l (e.run l).1).settlement.success = true) :
    (e.verdict l (e.run l).1).store.entries[StateKey.code e.context.contract]? =
      some (CodeRecord.bytes ⟨Script.languageName, source⟩) := by
  rcases Entry.verdict_cases ready with ⟨failed, -⟩ | ⟨-, flushed, -⟩
  · cases failed.symm.trans success
  · rw [Access.entries_flush flushed, Committed.getElem?_overlay]
    unfold Entry.pending
    rw [brought]
    simp [WriteOp.bytes?]

/-- The key `StateKey.code id` is not `pending`, unless the contract is being deployed. -/
theorem pending_code {id : ContractId} (other : e.source.isSome = true → id ≠ e.context.contract) :
    (e.pending l)[StateKey.code id]? = none := by
  cases hw : (e.pending l)[StateKey.code id]? with
  | none => rfl
  | some op =>
    rcases Entry.pending_cases hw with written | ⟨sourced, same⟩
    · have free := ((e.run_sound l).2.2.2.1 _ op written).2
      rw [StateKey.reserved_code] at free
      cases free
    · exact absurd (StateKey.code_injective same) (other sourced)

/-- A request that `Founds` a contract adds its code record, and no other one changes it. -/
theorem code_of_answer (l : Ledger) (r : Request) (id : ContractId) :
    ¬ l.Founds id (.call r) ∧
        (l.answer r).2.store.entries[StateKey.code id]? = l.store.entries[StateKey.code id]? ∨
      l.Founds id (.call r) ∧ l.store.entries[StateKey.code id]? = none ∧
        ∃ q source, r = .deploy q ∧ ContractId.ofSource q.source = id ∧
          Text.ofUtf8 q.source = .ok source ∧
          (l.answer r).2.store.entries[StateKey.code id]? =
            some (CodeRecord.bytes ⟨Script.languageName, source⟩) := by
  have succeeds : l.Founds id (.call r) → r.kind = .deploy ∧ r.target = id ∧
      (l.answer r).1.settlement.success = true := by
    intro founds
    cases r with
    | deploy q => exact ⟨rfl, founds⟩
    | invoke q => exact founds.elim
    | query q => exact founds.elim
  cases h : l.opening r with
  | error refusal =>
    rw [answer_of_refused h] at succeeds ⊢
    refine .inl ⟨fun founds => ?_, rfl⟩
    cases (succeeds founds).2.2
  | ok e =>
    obtain ⟨-, target, deploy, ready⟩ := opening_eq_ok h
    rw [answer_of_entered h] at succeeds ⊢
    dsimp only [answered] at succeeds ⊢
    rcases Entry.verdict_cases ready with ⟨failed, same, -⟩ | ⟨success, flushed, -⟩
    · refine .inl ⟨fun founds => ?_, congrArg (·.entries[StateKey.code id]?) same⟩
      cases failed.symm.trans (succeeds founds).2.2
    · by_cases own : r.kind = .deploy ∧ r.target = id
      · obtain ⟨asked, rfl⟩ := own
        cases r with
        | deploy q =>
          obtain ⟨source, -, -, text, -, brought⟩ := openSource_eq_ok h
          have recorded := code_of_success ready brought success
          have unrecorded := ready.unrecorded (brought ▸ rfl)
          rw [target] at recorded unrecorded
          refine .inr ⟨⟨rfl, ?_⟩, unrecorded, q, source, rfl, rfl, text, recorded⟩
          change (l.answer (.deploy q)).1.settlement.success = true
          rw [answer_of_entered h]
          exact success
        | invoke q => cases asked
        | query q => cases asked
      · have untouched : (e.pending l)[StateKey.code id]? = none :=
          pending_code fun sourced same => own ⟨deploy sourced, target.symm.trans same.symm⟩
        refine .inl ⟨fun founds => own ⟨(succeeds founds).1, (succeeds founds).2.1⟩, ?_⟩
        rw [Access.entries_flush flushed, Committed.getElem?_overlay, untouched]

theorem code_answer_of_recorded (r : Request) (id : ContractId)
    (recorded : l.store.entries[StateKey.code id]? ≠ none) :
    (l.answer r).2.store.entries[StateKey.code id]? = l.store.entries[StateKey.code id]? := by
  rcases l.code_of_answer r id with ⟨-, same⟩ | ⟨-, absent, -⟩
  · exact same
  · exact absurd absent recorded

end Ledger

/-! ## Histories -/

/-- The contract is what `accept` makes of the source that a deploy brings. -/
def Entry.Brings (e : Entry) (a : Admission) (contract : Contract) : Prop :=
  ∃ source, e.source = some source ∧ ContractId.ofSource (Text.utf8 source) = e.context.contract ∧
    a.accept (Text.utf8 source) = .ok contract

namespace Ledger

/-- The ledger after one `Step`. -/
def take (l : Ledger) : Step → Ledger
  | .call r => (l.answer r).2
  | .evict id => { l with cache := (l.cache.evict id).2 }
  | .refuse refusing => { l with store := { l.store with refusing := refusing } }

def after (l : Ledger) (steps : List Step) : Ledger := steps.foldl take l

theorem after_cons (l : Ledger) (step : Step) (rest : List Step) :
    l.after (step :: rest) = (l.take step).after rest := rfl

/-- The requests among some steps, with the `Report` of each. -/
def reports : Ledger → List Step → List (Request × Report)
  | _, [] => []
  | l, .call r :: rest => (r, (l.answer r).1) :: reports (l.answer r).2 rest
  | l, step :: rest => reports (l.take step) rest

/-- The cache admits what the configuration says, and is `Cache.Coherent`: it holds only
what is deployed. -/
structure Coherent (l : Ledger) : Prop where
  admission : l.cache.admission = l.config.admission
  held : l.cache.Coherent l.store.entries

variable {l : Ledger} {e : Entry}

theorem coherent_new (config : Config) (store : Store) : (new config store).Coherent :=
  ⟨rfl, List.forall_mem_nil _⟩

theorem config_answer (l : Ledger) (r : Request) : (l.answer r).2.config = l.config := by
  cases h : l.opening r with
  | error refusal => rw [answer_of_refused h]
  | ok e =>
    rw [answer_of_entered h]
    rfl

theorem isDeployed_of_unrecorded {id : ContractId}
    (h : l.store.entries[StateKey.code id]? = none) : l.isDeployed id = .ok false := by
  unfold isDeployed
  rw [codeRecord?_of_unrecorded h]
  rfl

theorem opening_deploy_of_error {r : DeployRequest} {f : ContractError}
    (h : l.isDeployed (ContractId.ofSource r.source) = .error f) :
    l.opening (.deploy r) = .error ⟨f, l.cache⟩ := by
  change l.openSource r = _
  unfold openSource
  dsimp only
  rw [h]

theorem opening_deploy_of_deployed {r : DeployRequest}
    (h : l.isDeployed (ContractId.ofSource r.source) = .ok true) :
    l.opening (.deploy r) = .error ⟨.alreadyDeployed (ContractId.ofSource r.source), l.cache⟩ := by
  change l.openSource r = _
  unfold openSource
  dsimp only
  rw [h]

/-- `opening` for the deploy of a source that has no code record: `accept` decides. -/
theorem Coherent.opening_deploy (h : l.Coherent) {r : DeployRequest}
    (unrecorded : l.store.entries[StateKey.code (ContractId.ofSource r.source)]? = none) :
    (∃ f, l.config.admission.accept r.source = .error f ∧
        l.opening (.deploy r) = .error ⟨.load f, (l.cache.load r.source).2⟩) ∨
      ∃ contract source, l.config.admission.accept r.source = .ok contract ∧
        Text.ofUtf8 r.source = .ok source ∧
        l.opening (.deploy r) = .ok ⟨contract, .forDeploy (ContractId.ofSource r.source) r.caller
          r.args r.height, (l.cache.load r.source).2, some source⟩ := by
  have loaded := (Cache.load_of_missing _ (h.held.missing unrecorded)).1
  rw [h.admission] at loaded
  change (∃ f, _ ∧ l.openSource r = _) ∨ ∃ contract source, _ ∧ _ ∧ l.openSource r = _
  unfold openSource
  dsimp only
  rw [isDeployed_of_unrecorded unrecorded]
  dsimp only
  generalize l.cache.load r.source = loading at loaded ⊢
  obtain ⟨f | contract, next⟩ := loading
  · exact .inl ⟨f, loaded.symm, rfl⟩
  · obtain ⟨source, text⟩ := Admission.text_of_accept loaded.symm
    refine .inr ⟨contract, source, loaded.symm, text, ?_⟩
    dsimp only
    rw [text]

/-- What the cache holds once `load` has had the source of a deploy. -/
theorem Coherent.load (h : l.Coherent) {source : List UInt8}
    (unrecorded : l.store.entries[StateKey.code (ContractId.ofSource source)]? = none) :
    (l.cache.load source).2.admission = l.config.admission ∧
      ∀ contract ∈ (l.cache.load source).2.held,
        l.store.entries.Deploys l.config.admission contract.id contract ∨
          l.config.admission.accept source = .ok contract := by
  obtain ⟨-, held⟩ := Cache.load_of_missing _ (h.held.missing unrecorded)
  have coherent := h.held
  unfold Cache.Coherent at coherent
  rw [h.admission] at held coherent
  refine ⟨(l.cache.load_cases source).1.trans h.admission, fun contract mem => ?_⟩
  exact (held contract mem).imp_left (coherent contract)

theorem extends_of_openDeployed {context : Context} :
    (∀ refusal, l.openDeployed context = .error refusal →
        l.cache.Extends l.store.entries refusal.cache) ∧
      ∀ e, l.openDeployed context = .ok e → l.cache.Extends l.store.entries e.cache := by
  constructor
  · intro refusal refused
    unfold openDeployed at refused
    split at refused <;> cases refused
    rename_i lost
    exact extends_resolve (.inr ⟨_, lost⟩)
  · intro e opened
    unfold openDeployed at opened
    split at opened <;> cases opened
    rename_i found
    exact extends_resolve (.inl ⟨_, found⟩)

/-- A call that `opening` refuses leaves a cache that `Extends` the one before. -/
theorem Coherent.extends_of_refused (h : l.Coherent) {r : Request} {refusal : Refusal}
    (refused : l.opening r = .error refusal) :
    l.cache.Extends l.store.entries refusal.cache := by
  cases r with
  | invoke r => exact extends_of_openDeployed.1 _ refused
  | query r => exact extends_of_openDeployed.1 _ refused
  | deploy r =>
    cases hd : l.isDeployed (ContractId.ofSource r.source) with
    | error f =>
      cases refused.symm.trans (opening_deploy_of_error hd)
      exact .refl _
    | ok there =>
      cases there with
      | true =>
        cases refused.symm.trans (opening_deploy_of_deployed hd)
        exact .refl _
      | false =>
        have unrecorded := unrecorded_of_not_deployed hd
        rcases h.opening_deploy unrecorded with
          ⟨f, rejected, opened⟩ | ⟨contract, source, -, -, opened⟩
        · cases refused.symm.trans opened
          obtain ⟨admission, held⟩ := h.load unrecorded
          refine ⟨admission.trans h.admission.symm, fun contract mem => .inr ?_⟩
          rw [h.admission]
          refine (held contract mem).resolve_right fun accepted => ?_
          cases rejected.symm.trans accepted
        · cases refused.symm.trans opened

/-- What the cache holds when `opening` has found the contract of a call is deployed, or
is what the deploy `Brings`. -/
theorem Coherent.held_of_entered (h : l.Coherent) {r : Request} (opened : l.opening r = .ok e) :
    e.cache.admission = l.config.admission ∧
      ∀ contract ∈ e.cache.held,
        l.store.entries.Deploys l.config.admission contract.id contract ∨
          e.Brings l.config.admission contract := by
  have settled : l.cache.Extends l.store.entries e.cache →
      e.cache.admission = l.config.admission ∧
        ∀ contract ∈ e.cache.held,
          l.store.entries.Deploys l.config.admission contract.id contract ∨
            e.Brings l.config.admission contract := by
    intro grown
    have admission := grown.admission.trans h.admission
    refine ⟨admission, fun contract mem => .inl ?_⟩
    rw [← admission]
    exact grown.coherent h.held contract mem
  cases r with
  | invoke r => exact settled (extends_of_openDeployed.2 _ opened)
  | query r => exact settled (extends_of_openDeployed.2 _ opened)
  | deploy r =>
    obtain ⟨source, fresh, loaded, text, context, brought⟩ := openSource_eq_ok opened
    obtain ⟨admission, held⟩ := h.load (unrecorded_of_not_deployed fresh)
    rw [loaded] at admission held
    refine ⟨admission, fun contract mem => (held contract mem).imp_right fun accepted => ?_⟩
    refine ⟨source, brought, ?_, ?_⟩
    · rw [Text.utf8_of_ofUtf8 text, context]
      rfl
    · rw [Text.utf8_of_ofUtf8 text]
      exact accepted

/-- Every `answer` leaves a ledger `Coherent`. -/
theorem Coherent.answer (h : l.Coherent) (r : Request) : (l.answer r).2.Coherent := by
  have persists := code_answer_of_recorded (l := l) r
  cases opened : l.opening r with
  | error refusal =>
    have grown := h.extends_of_refused opened
    rw [answer_of_refused opened]
    exact ⟨grown.admission.trans h.admission, grown.coherent h.held⟩
  | ok e =>
    obtain ⟨admission, held⟩ := h.held_of_entered opened
    have ran := e.extends_run l
    obtain ⟨-, -, -, ready⟩ := opening_eq_ok opened
    rw [answer_of_entered opened] at persists ⊢
    dsimp only [answered] at persists ⊢
    have admitted := ran.admission.trans admission
    have kept : ∀ contract ∈ (e.run l).2.held,
        (e.verdict l (e.run l).1).store.entries.Deploys l.config.admission contract.id contract ∨
          e.Brings l.config.admission contract := by
      intro contract mem
      have deployed : l.store.entries.Deploys l.config.admission contract.id contract ∨
          e.Brings l.config.admission contract := by
        refine (ran.held contract mem).elim (held contract) fun new => .inl ?_
        rw [← admission]
        exact new
      exact deployed.imp_left fun old => old.congr (persists contract.id old.recorded)
    -- Without a record is at hand, if anything, the contract of a deploy.  It is dropped
    -- unless the deploy succeeds, and then it has a record.
    unfold cacheAfter
    by_cases dropped : (e.source.isSome &&
        !(e.verdict l (e.run l).1).settlement.success) = true
    · rw [if_pos dropped]
      refine ⟨admitted, fun contract mem => ?_⟩
      change Committed.Deploys _ (e.run l).2.admission _ _
      rw [admitted]
      obtain ⟨at_hand, other⟩ := Cache.mem_of_mem_without mem
      refine (kept contract at_hand).resolve_right fun ⟨source, _, own, accepted⟩ => other ?_
      exact (Admission.id_of_accept accepted).trans own
    · rw [if_neg dropped]
      refine ⟨admitted, fun contract mem => ?_⟩
      dsimp only
      rw [admitted]
      refine (kept contract mem).elim id fun ⟨source, brought, own, accepted⟩ => ?_
      have success : (e.verdict l (e.run l).1).settlement.success = true := by
        rw [brought] at dropped
        simpa using dropped
      have recorded := code_of_success ready brought success
      have same := (Admission.id_of_accept accepted).trans own
      rw [← same] at recorded
      exact ⟨_, source, recorded, CodeRecord.decode_bytes _, own.trans same.symm, accepted⟩

theorem Coherent.take (h : l.Coherent) (step : Step) : (l.take step).Coherent := by
  cases step with
  | call r => exact h.answer r
  | evict id =>
    exact ⟨h.admission, fun contract mem => h.held contract (Cache.mem_of_mem_without mem).1⟩
  | refuse refusing => exact ⟨h.admission, h.held⟩

theorem Coherent.after (h : l.Coherent) (steps : List Step) : (l.after steps).Coherent := by
  induction steps generalizing l with
  | nil => exact h
  | cons step rest ih => exact ih (h.take step)

theorem config_take (l : Ledger) (step : Step) : (l.take step).config = l.config := by
  cases step with
  | call r => exact l.config_answer r
  | evict id => rfl
  | refuse refusing => rfl

theorem config_after (l : Ledger) (steps : List Step) : (l.after steps).config = l.config := by
  induction steps generalizing l with
  | nil => rfl
  | cons step rest ih => exact (ih _).trans (l.config_take step)

/-! ## Deploys of one contract -/

variable {id : ContractId}

/-- How many of the steps `Founds` the contract while they are taken. -/
def foundings (id : ContractId) : Ledger → List Step → Nat
  | _, [] => 0
  | l, step :: rest => (if l.Founds id step then 1 else 0) + foundings id (l.take step) rest

theorem code_take_of_recorded (recorded : l.store.entries[StateKey.code id]? ≠ none)
    (step : Step) :
    (l.take step).store.entries[StateKey.code id]? = l.store.entries[StateKey.code id]? := by
  cases step with
  | call r => exact code_answer_of_recorded r id recorded
  | evict id => rfl
  | refuse refusing => rfl

/-- A code record is permanent: `after` leaves its bytes as they are. -/
theorem code_after_of_recorded (recorded : l.store.entries[StateKey.code id]? ≠ none)
    (steps : List Step) :
    (l.after steps).store.entries[StateKey.code id]? = l.store.entries[StateKey.code id]? := by
  induction steps generalizing l with
  | nil => rfl
  | cons step rest ih =>
    have first := code_take_of_recorded recorded step
    exact (ih (first.symm ▸ recorded)).trans first

theorem Founds.unrecorded {step : Step} (h : l.Founds id step) :
    l.store.entries[StateKey.code id]? = none := by
  cases step with
  | call r =>
    rcases l.code_of_answer r id with ⟨fails, -⟩ | ⟨-, unrecorded, -⟩
    · exact absurd h fails
    · exact unrecorded
  | evict id => exact h.elim
  | refuse refusing => exact h.elim

theorem foundings_of_recorded (recorded : l.store.entries[StateKey.code id]? ≠ none)
    (steps : List Step) : l.foundings id steps = 0 := by
  induction steps generalizing l with
  | nil => rfl
  | cons step rest ih =>
    have kept := code_take_of_recorded recorded step
    unfold foundings
    rw [if_neg fun founds => recorded founds.unrecorded, ih (kept.symm ▸ recorded)]

/-- A contract gets its code record by a step that `Founds` it, and not otherwise. -/
theorem code_take_of_unrecorded (unrecorded : l.store.entries[StateKey.code id]? = none)
    (step : Step) :
    ¬ l.Founds id step ∧ (l.take step).store.entries[StateKey.code id]? = none ∨
      l.Founds id step ∧ ∃ r source, step = .call (.deploy r) ∧
        ContractId.ofSource r.source = id ∧ Text.ofUtf8 r.source = .ok source ∧
        (l.take step).store.entries[StateKey.code id]? =
          some (CodeRecord.bytes ⟨Script.languageName, source⟩) := by
  cases step with
  | call r =>
    rcases l.code_of_answer r id with
      ⟨fails, same⟩ | ⟨founds, -, q, source, rfl, own, text, recorded⟩
    · exact .inl ⟨fails, same.trans unrecorded⟩
    · exact .inr ⟨founds, q, source, rfl, own, text, recorded⟩
  | evict id => exact .inl ⟨not_false, unrecorded⟩
  | refuse refusing => exact .inl ⟨not_false, unrecorded⟩

/-- A contract without a code record has at most one of its `foundings`, and gets its code
record by it. -/
theorem foundings_cases (unrecorded : l.store.entries[StateKey.code id]? = none)
    (steps : List Step) :
    l.foundings id steps = 0 ∧ (l.after steps).store.entries[StateKey.code id]? = none ∨
      l.foundings id steps = 1 ∧ ∃ r source, .call (.deploy r) ∈ steps ∧
        ContractId.ofSource r.source = id ∧ Text.ofUtf8 r.source = .ok source ∧
        (l.after steps).store.entries[StateKey.code id]? =
          some (CodeRecord.bytes ⟨Script.languageName, source⟩) := by
  induction steps generalizing l with
  | nil => exact .inl ⟨rfl, unrecorded⟩
  | cons step rest ih =>
    unfold foundings
    rw [after_cons]
    rcases code_take_of_unrecorded unrecorded step with
      ⟨fails, still⟩ | ⟨founds, r, source, rfl, own, text, recorded⟩
    · rw [if_neg fails, Nat.zero_add]
      refine (ih still).imp_right fun ⟨once, r, source, mem, done⟩ => ?_
      exact ⟨once, r, source, List.mem_cons_of_mem _ mem, done⟩
    · have there : (l.take (.call (.deploy r))).store.entries[StateKey.code id]? ≠ none := by
        rw [recorded]
        exact Option.some_ne_none _
      rw [if_pos founds, foundings_of_recorded there]
      refine .inr ⟨rfl, r, source, List.mem_cons_self, own, text, ?_⟩
      rw [code_after_of_recorded there, recorded]

/-- `deploy` of a contract with a code record is answered `alreadyDeployed`, and does
nothing. -/
theorem deploy_of_recorded {r : DeployRequest} {source : String}
    (recorded : l.store.entries[StateKey.code (ContractId.ofSource r.source)]? =
      some (CodeRecord.bytes ⟨Script.languageName, source⟩)) :
    l.deploy r =
      (⟨.failed (.alreadyDeployed (ContractId.ofSource r.source)), {}, [.idle, .loading, .idle]⟩,
        l) := by
  have deployed : l.isDeployed (ContractId.ofSource r.source) = .ok true := by
    unfold isDeployed codeRecord?
    rw [recorded]
    dsimp only
    rw [CodeRecord.decode_bytes]
    rfl
  exact answer_of_refused (r := .deploy r) (opening_deploy_of_deployed deployed)

/-- `deploy` leaves the store alone if it does not succeed. -/
theorem store_deploy_of_failed {r : DeployRequest}
    (failed : (l.deploy r).1.settlement.success = false) : (l.deploy r).2.store = l.store := by
  change (l.answer (.deploy r)).1.settlement.success = false at failed
  change (l.answer (.deploy r)).2.store = l.store
  cases opened : l.opening (.deploy r) with
  | error refusal => rw [answer_of_refused opened]
  | ok e =>
    obtain ⟨-, -, -, ready⟩ := opening_eq_ok opened
    rw [answer_of_entered opened] at failed ⊢
    rcases Entry.verdict_cases ready with ⟨-, same, -⟩ | ⟨success, -⟩
    · exact same
    · cases failed.symm.trans success

/-- A deploy always has something `pending`, so `Access.flush` refuses it exactly if the
store is `refusing`. -/
theorem flush_pending_iff {source : String} (brought : e.source = some source) :
    (∃ after, Access.flush l.store (e.pending l) = .ok after) ↔ l.store.refusing = false := by
  have nonempty : e.pending l ≠ ∅ := by
    intro empty
    have own : (e.pending l)[StateKey.code e.context.contract]? ≠ none := by
      unfold Entry.pending
      rw [brought]
      simp
    rw [empty] at own
    exact own Std.ExtTreeMap.getElem?_empty
  rw [Access.exists_flush_iff, or_iff_right nonempty]
  unfold Store.commit
  cases l.store.refusing <;> simp

/-- The deploy of a contract without a code record succeeds exactly when its source
is admitted, `Init` returns a truthy value, and the store accepts the commit. -/
theorem Coherent.deploy_succeeds_iff (h : l.Coherent) {r : DeployRequest}
    (unrecorded : l.store.entries[StateKey.code (ContractId.ofSource r.source)]? = none) :
    (l.deploy r).1.settlement.success = true ↔
      l.store.refusing = false ∧ ∃ contract v,
        l.config.admission.accept r.source = .ok contract ∧
        (execute l.surroundings contract
          (.forDeploy (ContractId.ofSource r.source) r.caller r.args r.height) {}
          l.config.deployBudget l.config.checkInterval (l.cache.load r.source).2).1.result =
            .ok v ∧
        v.truthy = true := by
  change (l.answer (.deploy r)).1.settlement.success = true ↔ _
  rcases h.opening_deploy unrecorded with
    ⟨f, rejected, opened⟩ | ⟨contract, source, accepted, text, opened⟩
  · rw [answer_of_refused opened, rejected]
    constructor
    · intro success
      cases success
    · rintro ⟨-, contract, v, accepted, -⟩
      cases accepted
  · obtain ⟨-, -, -, ready⟩ := opening_eq_ok opened
    have flushes := flush_pending_iff (l := l)
      (e := ⟨contract, .forDeploy (ContractId.ofSource r.source) r.caller r.args r.height,
        (l.cache.load r.source).2, some source⟩) rfl
    rw [answer_of_entered opened, accepted, ← flushes]
    rcases Entry.verdict_cases ready with ⟨failed, -, unmet⟩ | ⟨success, flushed, -, v, met⟩
    · refine ⟨fun success => ?_, fun ⟨accepts, first, v, same, returned⟩ => ?_⟩
      · cases failed.symm.trans success
      · cases same
        exact absurd ⟨rfl, ⟨v, returned⟩, accepts⟩ unmet
    · exact ⟨fun _ => ⟨⟨_, flushed⟩, contract, v, rfl, met⟩, fun _ => success⟩

/-! ## Records that deploy -/

/-- Every code record deploys a contract, as `Committed.Deploys` says. -/
def Coded (l : Ledger) : Prop :=
  ∀ id, l.store.entries[StateKey.code id]? ≠ none →
    ∃ contract, l.store.entries.Deploys l.config.admission id contract

/-- `resolve` finds a contract exactly when it has a code record. -/
theorem Coded.resolve_cases (h : l.Coded) {c : Cache} (admission : c.admission = l.config.admission)
    (faithful : c.Faithful l.store.entries) (id : ContractId) :
    l.store.entries[StateKey.code id]? = none ∧
        resolve l.store.entries id c = .error (.contractNotFound id) c ∨
      ∃ contract next, l.store.entries.Deploys l.config.admission id contract ∧
        resolve l.store.entries id c = .ok contract next := by
  by_cases unrecorded : l.store.entries[StateKey.code id]? = none
  · exact .inl ⟨unrecorded, resolve_of_unrecorded unrecorded c⟩
  · obtain ⟨contract, deployed⟩ := h id unrecorded
    obtain ⟨next, found⟩ := resolve_of_deploys faithful (admission ▸ deployed)
    exact .inr ⟨contract, next, deployed, found⟩

theorem Coded.isDeployed_cases (h : l.Coded) (id : ContractId) :
    l.store.entries[StateKey.code id]? = none ∧ l.isDeployed id = .ok false ∨
      l.store.entries[StateKey.code id]? ≠ none ∧ l.isDeployed id = .ok true := by
  by_cases unrecorded : l.store.entries[StateKey.code id]? = none
  · exact .inl ⟨unrecorded, isDeployed_of_unrecorded unrecorded⟩
  · obtain ⟨contract, deployed⟩ := h id unrecorded
    obtain ⟨source, record, -⟩ := codeRecord?_of_deploys deployed
    refine .inr ⟨unrecorded, ?_⟩
    unfold isDeployed
    rw [record]
    rfl

/-- The cache with which a call opens is `Faithful`, also while a source is being
deployed. -/
theorem Coherent.faithful_of_entered (h : l.Coherent) {r : Request} (opened : l.opening r = .ok e) :
    e.cache.admission = l.config.admission ∧ e.cache.Faithful l.store.entries := by
  obtain ⟨admission, held⟩ := h.held_of_entered opened
  obtain ⟨-, -, -, ready⟩ := opening_eq_ok opened
  refine ⟨admission, fun contract mem recorded => ?_⟩
  rw [admission]
  refine (held contract mem).resolve_right fun ⟨source, brought, own, accepted⟩ => recorded ?_
  rw [Admission.id_of_accept accepted, own]
  exact ready.unrecorded (brought ▸ rfl)

theorem Coded.answer (h : l.Coded) (hc : l.Coherent) (r : Request) : (l.answer r).2.Coded := by
  intro id recorded
  rw [config_answer]
  rcases l.code_of_answer r id with
    ⟨-, same⟩ | ⟨founds, unrecorded, q, source, rfl, own, text, record⟩
  · obtain ⟨contract, deployed⟩ := h id (same ▸ recorded)
    exact ⟨contract, deployed.congr same⟩
  · subst own
    obtain ⟨-, contract, v, accepted, -⟩ := (hc.deploy_succeeds_iff unrecorded).1 founds.2
    have spelled := Text.utf8_of_ofUtf8 text
    exact ⟨contract, _, source, record, CodeRecord.decode_bytes _, by rw [spelled],
      by rw [spelled]; exact accepted⟩

theorem Coded.take (h : l.Coded) (hc : l.Coherent) (step : Step) : (l.take step).Coded := by
  cases step with
  | call r => exact h.answer hc r
  | evict id => exact h
  | refuse refusing => exact h

/-! ## Once and for good -/

/-- **A contract is deployed once and for good.**  Whatever happens to a ledger whose
store has no code record of a contract, it has at most one of its `foundings`.  Once it
has had one, `after` keeps the code record with the source that was deployed, whatever
else happens, and `deploy` of the contract is answered `alreadyDeployed` without using or
changing anything.  Until then there is no code record, a `deploy` of the contract that
fails leaves the store alone, and one succeeds exactly when `accept` admits its source,
`execute` returns a truthy value from its `Init`, and the store is not `refusing`. -/
theorem deploy_once (config : Config) (store : Store) (id : ContractId)
    (unrecorded : store.entries[StateKey.code id]? = none) (steps : List Step) :
    let first := new config store
    let l := first.after steps
    first.foundings id steps ≤ 1 ∧
      (first.foundings id steps = 1 →
        (∃ r source, .call (.deploy r) ∈ steps ∧ ContractId.ofSource r.source = id ∧
          Text.ofUtf8 r.source = .ok source ∧
          ∀ more, (l.after more).store.entries[StateKey.code id]? =
            some (CodeRecord.bytes ⟨Script.languageName, source⟩)) ∧
        ∀ r, ContractId.ofSource r.source = id →
          l.deploy r =
            (⟨.failed (.alreadyDeployed id), {}, [.idle, .loading, .idle]⟩, l)) ∧
      (first.foundings id steps = 0 →
        l.store.entries[StateKey.code id]? = none ∧
          ∀ r, ContractId.ofSource r.source = id →
            ((l.deploy r).1.settlement.success = false → (l.deploy r).2.store = l.store) ∧
            ((l.deploy r).1.settlement.success = true ↔
              l.store.refusing = false ∧ ∃ contract v,
                config.admission.accept r.source = .ok contract ∧
                (execute l.surroundings contract (.forDeploy id r.caller r.args r.height) {}
                  config.deployBudget config.checkInterval (l.cache.load r.source).2).1.result =
                    .ok v ∧
                v.truthy = true)) := by
  intro first l
  have coherent : l.Coherent := (coherent_new config store).after steps
  have same : l.config = config := first.config_after steps
  rcases foundings_cases (l := first) unrecorded steps with
    ⟨none, still⟩ | ⟨once, q, source, asked, own, text, recorded⟩
  · refine ⟨none ▸ Nat.zero_le 1, fun once => ?_, fun _ => ⟨still, fun r own => ?_⟩⟩
    · cases none.symm.trans once
    · subst own
      refine ⟨store_deploy_of_failed, ?_⟩
      rw [coherent.deploy_succeeds_iff still, same]
  · refine ⟨once ▸ Nat.le_refl 1, fun _ => ⟨⟨q, source, asked, own, text, fun more => ?_⟩,
      fun r own => ?_⟩, fun none => ?_⟩
    · have there : l.store.entries[StateKey.code id]? ≠ none := by
        rw [recorded]
        exact Option.some_ne_none _
      rw [code_after_of_recorded there, recorded]
    · subst own
      exact deploy_of_recorded recorded
    · cases once.symm.trans none

end Ledger

namespace Retry

/-- Keeps its argument when it is deployed. -/
def request : DeployRequest where
  source := Text.utf8 "function Init(a) \x7b PutState(\"k\", a); return true; \x7d"
  args := .int 7

def id : ContractId := ContractId.ofSource request.source

/-- A deploy that the store refuses, and one that it accepts. -/
def steps : List Step :=
  [.refuse true, .call (.deploy request), .refuse false, .call (.deploy request)]

/-- The second deploy succeeds, and a third one does nothing. -/
theorem deployed_on_retry :
    ({} : Store).entries[StateKey.code id]? = none ∧
      (Ledger.new {} {}).foundings id steps = 1 ∧
      let l := (Ledger.new {} {}).after steps
      l.deploy request =
        (⟨.failed (.alreadyDeployed id), {}, [.idle, .loading, .idle]⟩, l) := by
  have unrecorded : ({} : Store).entries[StateKey.code id]? = none :=
    Std.ExtTreeMap.getElem?_empty
  have once : (Ledger.new {} {}).foundings id steps = 1 := by decide +kernel
  have history := Ledger.deploy_once {} {} id unrecorded steps
  exact ⟨unrecorded, once, (history.2.1 once).2 request rfl⟩

end Retry

end LedgerScript
