import LedgerScript.Proofs.Ledger.History
import LedgerScript.Proofs.Machine.Integrity

/-!
# Sound committed state

A ledger that began empty holds code records of admitted sources, and beside them
only what their contracts may have stored (`Ledger.Sound`).  So it never reads
what it cannot decode, and always finds the contracts that it has deployed.  Main
statement: `committed_sound`.
-/

namespace LedgerScript

/-- The arguments that a request passes on. -/
def Request.args : Request → Value
  | deploy r => r.args
  | invoke r => r.args
  | query r => r.args

namespace Ledger

/-- The ledger is `Coherent` and `Coded`, and every entry belongs to a contract that is
deployed: it is its code record, or `StateLimits.Legal`. -/
structure Sound (l : Ledger) : Prop where
  coherent : l.Coherent
  coded : l.Coded
  entries : ∀ key bytes, l.store.entries[key]? = some bytes →
    ∃ id, key.space = id.space ∧ l.store.entries[StateKey.code id]? ≠ none ∧
      (key = StateKey.code id ∨ l.config.limits.Legal key bytes)

/-- The namespaces in which a call may write: that in which `e` runs, and those of the
contracts that have a code record. -/
def Home (l : Ledger) (e : Entry) (space : Namespace) : Prop :=
  space = e.context.space ∨
    ∃ id, space = ContractId.space id ∧ l.store.entries[StateKey.code id]? ≠ none

variable {l : Ledger} {e : Entry} {r : Request}

theorem sound_new (config : Config) : (new config {}).Sound where
  coherent := coherent_new config {}
  coded id recorded := absurd Std.ExtTreeMap.getElem?_empty recorded
  entries key bytes held := by
    change (∅ : Committed)[key]? = some bytes at held
    rw [Std.ExtTreeMap.getElem?_empty] at held
    cases held

/-! ## Runs -/

/-- A run over the state of a `Sound` ledger finds its surroundings `Surroundings.Intact`. -/
theorem Sound.intact (h : l.Sound) (opened : l.opening r = .ok e) :
    l.surroundings.Intact (l.Home e) (e.cache.Extends l.store.entries ·) := by
  obtain ⟨admission, faithful⟩ := h.coherent.faithful_of_entered opened
  have resolves : ∀ {c}, e.cache.Extends l.store.entries c → ∀ id,
      l.store.entries[StateKey.code id]? = none ∧
          resolve l.store.entries id c = .error (.contractNotFound id) c ∨
        ∃ contract next, l.store.entries.Deploys l.config.admission id contract ∧
          resolve l.store.entries id c = .ok contract next := fun grown =>
    h.coded.resolve_cases (grown.admission.trans admission) (grown.faithful faithful)
  refine ⟨fun key bytes held free => ?_, fun {id contract a b} grown found => ?_,
    fun {id f a b} grown lost => ?_, fun _ _ _ _ grown => grown⟩
  · obtain ⟨id, -, -, code | legal⟩ := h.entries key bytes held
    · rw [code, StateKey.reserved_code] at free
      cases free
    · exact legal
  · refine ⟨grown.trans (extends_resolve (.inl ⟨contract, found⟩)), .inr ⟨id, rfl, ?_⟩⟩
    rcases resolves grown id with ⟨-, missing⟩ | ⟨other, next, deployed, -⟩
    · cases found.symm.trans missing
    · exact deployed.recorded
  · refine ⟨grown.trans (extends_resolve (.inr ⟨f, lost⟩)), ?_⟩
    rcases resolves grown id with ⟨-, missing⟩ | ⟨other, next, -, found⟩
    · cases lost.symm.trans missing
      trivial
    · cases lost.symm.trans found

theorem args_of_entered (opened : l.opening r = .ok e) : e.context.args = r.args := by
  cases r with
  | deploy r =>
    obtain ⟨source, -, -, -, context, -⟩ := openSource_eq_ok opened
    rw [context]
    rfl
  | invoke r => exact (resolve_of_entered opened).1 ▸ rfl
  | query r => exact (resolve_of_entered opened).1 ▸ rfl

theorem Sound.run (h : l.Sound) (opened : l.opening r = .ok e) (sorted : r.args.Sorted) :
    (∀ space ∈ (e.run l).1.executed, l.Home e space) ∧
      (∀ (key : StateKey) (bytes : List UInt8),
        (e.run l).1.view.writes[key]? = some (.put bytes) → l.config.limits.Legal key bytes) ∧
      ∀ f, (e.run l).1.result = .error f → f.Benign := by
  have args : e.context.args.Sorted := args_of_entered opened ▸ sorted
  exact (execute_benign (h.intact opened) e.contract (.inl rfl) args e.context.kind.readOnly
    (l.config.budget e.context.kind) l.config.checkInterval (.refl e.cache)).2

/-! ## Calls -/

theorem benign_of_flush {store : Store} {w : WriteSet} {f : StateError}
    (h : Access.flush store w = .error f) : (ContractError.state f).Benign := by
  unfold Access.flush Store.commit at h
  split at h
  · cases h
  · split at h <;> cases h
    trivial

/-- If the error of a run is `Benign`, so is that of the `verdict` on it. -/
theorem benign_of_verdict (ready : e.Ready l)
    (ran : ∀ f, (e.run l).1.result = .error f → f.Benign) {f : ContractError}
    (failed : (e.verdict l (e.run l).1).settlement = .failed f) : f.Benign := by
  rcases Entry.error_of_verdict ready failed with returned | ⟨g, flushed, rfl⟩
  · exact ran f returned
  · exact benign_of_flush flushed

/-- The error of a `Refusal` is `Benign`, or a deploy has brought a source that does not
load. -/
theorem Sound.refused (h : l.Sound) {refusal : Refusal} (refused : l.opening r = .error refusal) :
    refusal.error.Benign ∨ r.kind = .deploy ∧ ∃ f, refusal.error = .load f := by
  have deployed : ∀ context, l.openDeployed context = .error refusal → refusal.error.Benign := by
    intro context refused
    unfold openDeployed at refused
    rcases h.coded.resolve_cases h.coherent.admission h.coherent.held.faithful context.contract with
      ⟨-, missing⟩ | ⟨contract, next, -, found⟩
    · rw [missing] at refused
      cases refused
      trivial
    · rw [found] at refused
      cases refused
  cases r with
  | invoke r => exact .inl (deployed _ refused)
  | query r => exact .inl (deployed _ refused)
  | deploy r =>
    rcases h.coded.isDeployed_cases (ContractId.ofSource r.source) with
      ⟨unrecorded, -⟩ | ⟨-, there⟩
    · rcases h.coherent.opening_deploy unrecorded with
        ⟨f, -, opened⟩ | ⟨contract, source, -, -, opened⟩
      · cases refused.symm.trans opened
        exact .inr ⟨rfl, f, rfl⟩
      · cases refused.symm.trans opened
    · cases refused.symm.trans (opening_deploy_of_deployed there)
      exact .inl trivial

/-- The contract that `opening` finds has a code record, unless the call is a deploy. -/
theorem Sound.recorded_of_entered (h : l.Sound) (opened : l.opening r = .ok e) :
    e.source.isSome = true ∨ l.store.entries[StateKey.code e.context.contract]? ≠ none := by
  have deployed : ∀ context, l.openDeployed context = .ok e →
      l.store.entries[StateKey.code e.context.contract]? ≠ none := by
    intro context opened
    unfold openDeployed at opened
    rcases h.coded.resolve_cases h.coherent.admission h.coherent.held.faithful context.contract with
      ⟨-, missing⟩ | ⟨contract, next, deployed, found⟩
    · rw [missing] at opened
      cases opened
    · rw [found] at opened
      cases opened
      exact deployed.recorded
  cases r with
  | invoke r => exact .inr (deployed _ opened)
  | query r => exact .inr (deployed _ opened)
  | deploy r =>
    obtain ⟨source, -, -, -, -, brought⟩ := openSource_eq_ok opened
    exact .inl (brought ▸ rfl)

/-- A namespace that is `Home` to a call is that of a contract with a code record, once
the call has succeeded. -/
theorem Sound.recorded_of_success (h : l.Sound) (opened : l.opening r = .ok e)
    (success : (e.verdict l (e.run l).1).settlement.success = true)
    (keeps : ∀ id, l.store.entries[StateKey.code id]? ≠ none →
      (e.verdict l (e.run l).1).store.entries[StateKey.code id]? ≠ none)
    {space : Namespace} (home : l.Home e space) :
    ∃ id, space = ContractId.space id ∧
      (e.verdict l (e.run l).1).store.entries[StateKey.code id]? ≠ none := by
  obtain ⟨-, -, -, ready⟩ := opening_eq_ok opened
  rcases home with own | ⟨id, space, recorded⟩
  · refine ⟨e.context.contract, own.trans ready.space, ?_⟩
    rcases h.recorded_of_entered opened with sourced | recorded
    · obtain ⟨source, brought⟩ := Option.isSome_iff_exists.1 sourced
      rw [code_of_success ready brought success]
      exact Option.some_ne_none _
    · exact keeps _ recorded
  · exact ⟨id, space, keeps id recorded⟩

/-- A write in `pending` is for a namespace that is `Home`, and is the code record or
`StateLimits.Legal`. -/
theorem Sound.pending (h : l.Sound) (opened : l.opening r = .ok e) (sorted : r.args.Sorted)
    {key : StateKey} {bytes : List UInt8} (hw : (e.pending l)[key]? = some (.put bytes)) :
    l.Home e key.space ∧
      (key = StateKey.code e.context.contract ∨ l.config.limits.Legal key bytes) := by
  obtain ⟨-, -, -, ready⟩ := opening_eq_ok opened
  obtain ⟨home, legal, -⟩ := h.run opened sorted
  rcases Entry.pending_cases hw with written | ⟨-, code⟩
  · exact ⟨home _ ((e.run_sound l).2.2.2.1 key _ written).1, .inr (legal key bytes written)⟩
  · exact ⟨.inl (by rw [ready.space, code]; rfl), .inl code⟩

/-- `answer` to a request with sorted arguments leaves a ledger `Sound`, and an error that
it reports is `Benign` or that of a source that does not load. -/
theorem Sound.answer (h : l.Sound) (r : Request) (sorted : r.args.Sorted) :
    (l.answer r).2.Sound ∧ ∀ f, (l.answer r).1.settlement = .failed f →
      f.Benign ∨ r.kind = .deploy ∧ ∃ g, f = .load g := by
  have coherent := h.coherent.answer r
  have coded := h.coded.answer h.coherent r
  have persists := code_answer_of_recorded (l := l) r
  cases opened : l.opening r with
  | error refusal =>
    have refused := h.refused opened
    rw [answer_of_refused opened] at coherent coded ⊢
    refine ⟨⟨coherent, coded, h.entries⟩, fun f failed => ?_⟩
    cases failed
    exact refused
  | ok e =>
    obtain ⟨-, -, -, ready⟩ := opening_eq_ok opened
    obtain ⟨-, -, benign⟩ := h.run opened sorted
    rw [answer_of_entered opened] at coherent coded persists ⊢
    refine ⟨⟨coherent, coded, fun key bytes held => ?_⟩,
      fun f failed => .inl (benign_of_verdict ready benign failed)⟩
    dsimp only [answered] at held persists ⊢
    have keeps : ∀ id, l.store.entries[StateKey.code id]? ≠ none →
        (e.verdict l (e.run l).1).store.entries[StateKey.code id]? ≠ none := fun id recorded =>
      (persists id recorded).symm ▸ recorded
    have old : l.store.entries[key]? = some bytes →
        ∃ id, key.space = id.space ∧
          (e.verdict l (e.run l).1).store.entries[StateKey.code id]? ≠ none ∧
          (key = StateKey.code id ∨ l.config.limits.Legal key bytes) := by
      intro held
      obtain ⟨id, space, recorded, rest⟩ := h.entries key bytes held
      exact ⟨id, space, keeps id recorded, rest⟩
    rcases Entry.verdict_cases ready with ⟨-, same, -⟩ | ⟨success, flushed, -⟩
    · rw [same] at held
      exact old held
    · -- An entry was there before, or it was pending and is now.
      have effect := held
      rw [Access.entries_flush flushed, Committed.getElem?_overlay] at effect
      cases hw : (e.pending l)[key]? with
      | none =>
        rw [hw] at effect
        exact old effect
      | some op =>
        rw [hw] at effect
        cases op with
        | delete => cases effect
        | put bytes =>
          cases effect
          obtain ⟨home, what⟩ := h.pending opened sorted hw
          obtain ⟨id, space, recorded⟩ := h.recorded_of_success opened success keeps home
          refine ⟨id, space, recorded, what.imp_left fun code => ?_⟩
          have own : id.space = e.context.contract.space := by
            rw [← space, code]
            rfl
          rw [ContractId.space_injective own]
          exact code

theorem Sound.take (h : l.Sound) (step : Step) (sorted : ∀ r, step = .call r → r.args.Sorted) :
    (l.take step).Sound := by
  cases step with
  | call r => exact (h.answer r (sorted r rfl)).1
  | evict id => exact ⟨h.coherent.take (.evict id), h.coded, h.entries⟩
  | refuse refusing => exact ⟨h.coherent.take (.refuse refusing), h.coded, h.entries⟩

/-- `Sound` lasts over all steps with sorted arguments, and every error that is reported
on the way is `Benign` or that of a source that does not load. -/
theorem Sound.after (h : l.Sound) {steps : List Step}
    (sorted : ∀ r, .call r ∈ steps → r.args.Sorted) :
    (l.after steps).Sound ∧ ∀ r report, (r, report) ∈ l.reports steps →
      ∀ f, report.settlement = .failed f →
        f.Benign ∨ r.kind = .deploy ∧ ∃ g, f = .load g := by
  induction steps generalizing l with
  | nil => exact ⟨h, fun _ _ mem => by cases mem⟩
  | cons step rest ih =>
    have first : ∀ r, step = .call r → r.args.Sorted := fun r same =>
      sorted r (same ▸ List.mem_cons_self)
    obtain ⟨sound, later⟩ := ih (h.take step first) fun r mem =>
      sorted r (List.mem_cons_of_mem _ mem)
    refine ⟨sound, fun r report mem => ?_⟩
    cases step with
    | call q =>
      rcases List.mem_cons.1 mem with same | mem
      · cases same
        exact (h.answer _ (first _ rfl)).2
      · exact later r report mem
    | evict id => exact later r report mem
    | refuse refusing => exact later r report mem

/-- **Committed state is sound.**  Whatever happens to a ledger that began empty, every
entry of its store belongs to a contract that its entries deploy (`Committed.Deploys`):
there is a `CodeRecord` in the running language, whose source has the digest that names
the namespace and is admitted.  The entry is this code record, or it is
`StateLimits.Legal`: its key is no host's and within the limits, and its bytes are the
canonical text of a value that may be stored.  So no call ever answers `corrupted`, and
only a deploy can answer `load`.  Arguments are `Value.Sorted`, as all values are that
have been read. -/
theorem committed_sound (config : Config) (steps : List Step)
    (sorted : ∀ r, .call r ∈ steps → r.args.Sorted) :
    (∀ key bytes, ((new config {}).after steps).store.entries[key]? = some bytes →
        ∃ id contract, key.space = id.space ∧
          ((new config {}).after steps).store.entries.Deploys config.admission id contract ∧
          (key = StateKey.code id ∨ config.limits.Legal key bytes)) ∧
      ∀ r report, (r, report) ∈ (new config {}).reports steps →
        (∀ key why, report.settlement ≠ .failed (.state (.corrupted key why))) ∧
          (r.kind ≠ .deploy → ∀ f, report.settlement ≠ .failed (.load f)) := by
  obtain ⟨sound, answers⟩ := (sound_new config).after sorted
  have same := (new config {}).config_after steps
  have coded := sound.coded
  have entries := sound.entries
  unfold Coded at coded
  rw [same] at coded entries
  refine ⟨fun key bytes held => ?_, fun r report mem => ⟨fun key why failed => ?_,
    fun kind f failed => ?_⟩⟩
  · obtain ⟨id, space, recorded, rest⟩ := entries key bytes held
    obtain ⟨contract, deployed⟩ := coded id recorded
    exact ⟨id, contract, space, deployed, rest⟩
  · rcases answers r report mem _ failed with benign | ⟨-, g, load⟩
    · exact benign
    · cases load
  · rcases answers r report mem _ failed with benign | ⟨deploy, -⟩
    · exact benign
    · exact kind deploy

end Ledger

namespace Retry

/-- The argument of the deploy is kept, and the entry is legal. -/
theorem committed_argument :
    (∀ r, .call r ∈ steps → r.args.Sorted) ∧
      let l := (Ledger.new {} {}).after steps
      l.store.entries[(⟨id.space, "k"⟩ : StateKey)]? = some [55] ∧
        ∃ other contract, id.space = other.space ∧
          l.store.entries.Deploys ({} : Config).admission other contract ∧
          (⟨id.space, "k"⟩ = StateKey.code other ∨
            ({} : Config).limits.Legal ⟨id.space, "k"⟩ [55]) := by
  have sorted : ∀ r, .call r ∈ steps → r.args.Sorted := by
    intro r mem
    rcases mem with - | ⟨_, - | ⟨_, - | ⟨_, - | ⟨_, mem⟩⟩⟩⟩
    · exact trivial
    · exact trivial
    · cases mem
  have kept : ((Ledger.new {} {}).after steps).store.entries[(⟨id.space, "k"⟩ : StateKey)]? =
      some [55] := by decide +kernel
  have sound := (Ledger.committed_sound {} steps sorted).1 ⟨id.space, "k"⟩ [55] kept
  exact ⟨sorted, kept, sound⟩

end Retry

end LedgerScript
