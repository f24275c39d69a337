import LedgerScript.Proofs.Ledger.Caching
import LedgerScript.Proofs.Machine.Noninterference

/-!
# Calls that do not meet

Two invokes that run no contract in common do not feel each other.  The first one
writes only for contracts that it has run (`Ledger.space_of_written`) and no code
records, so the other one finds the same contracts and the same entries that it reads
(`Ledger.Aside`), and what both write can be written in either order
(`Access.flushed_comm`).  Main statement: `invokes_commute`.
-/

namespace LedgerScript

/-! ## Writes in either order -/

theorem Committed.overlay_comm (entries : Committed) {w w' : WriteSet}
    (apart : ∀ key : StateKey, w[key]? ≠ none → w'[key]? = none) :
    (entries.overlay w).overlay w' = (entries.overlay w').overlay w := by
  refine Std.ExtTreeMap.ext_getElem? fun key => ?_
  rw [getElem?_overlay, getElem?_overlay, getElem?_overlay, getElem?_overlay]
  cases written : w[key]? with
  | none => cases w'[key]? <;> rfl
  | some op =>
    rw [apart key (by rw [written]; exact Option.some_ne_none op)]

namespace Access

/-- What a store becomes when it takes writes, as `flush_eq` says; it counts commits, not
calls. -/
def flushed (store : Store) (w : WriteSet) : Store :=
  if w.isEmpty then store
  else { store with entries := store.entries.overlay w, commits := store.commits + 1 }

/-- Whether `flush` takes writes depends on the store only in whether it is `refusing`. -/
theorem flush_eq (store : Store) (w : WriteSet) :
    flush store w =
      if !w.isEmpty && store.refusing then .error (.commitRejected "store is refusing commits")
      else .ok (flushed store w) := by
  unfold flush Store.commit flushed
  cases w.isEmpty <;> cases store.refusing <;> rfl

theorem entries_flushed (store : Store) (w : WriteSet) :
    (flushed store w).entries = store.entries.overlay w := by
  unfold flushed
  split
  · rename_i empty
    rw [Std.ExtTreeMap.isEmpty_iff.1 empty, Committed.overlay_empty]
  · rfl

theorem refusing_flushed (store : Store) (w : WriteSet) :
    (flushed store w).refusing = store.refusing := by
  unfold flushed
  split <;> rfl

theorem flushed_comm {w w' : WriteSet} (apart : ∀ key : StateKey, w[key]? ≠ none → w'[key]? = none)
    (store : Store) : flushed (flushed store w) w' = flushed (flushed store w') w := by
  have entries := Committed.overlay_comm store.entries apart
  unfold flushed
  cases w.isEmpty <;> cases w'.isEmpty <;> first | rfl | exact congrArg (Store.mk · _ _) entries

end Access

/-! ## What a call writes -/

/-- All that the `verdict` on a run depends on: the result of the run, `pending`, and
whether the store is `refusing`. -/
theorem Entry.verdict_eq {e : Entry} {l : Ledger} (ready : e.Ready l) :
    e.verdict l (e.run l).1 =
      match (e.run l).1.result with
      | .error f => ⟨.failed f, l.store, [.discarding]⟩
      | .ok v =>
        if e.context.kind.readOnly || !v.truthy then ⟨.discarded v, l.store, [.discarding]⟩
        else if !(e.pending l).isEmpty && l.store.refusing then
          ⟨.failed (.state (.commitRejected "store is refusing commits")), l.store,
            [.committing, .discarding]⟩
        else ⟨.committed v, Access.flushed l.store (e.pending l), [.committing]⟩ := by
  cases returned : (e.run l).1.result with
  | error f =>
    unfold verdict
    rw [returned]
  | ok v =>
    by_cases dropped : (e.context.kind.readOnly || !v.truthy) = true
    · unfold verdict
      rw [returned]
      dsimp only
      rw [if_pos dropped, if_pos dropped]
    · dsimp only
      rw [if_neg dropped]
      rw [Bool.or_eq_true, not_or, Bool.not_eq_true, Bool.not_eq_true', Bool.not_eq_false]
        at dropped
      rw [verdict_of_returned dropped.1 ready returned dropped.2, Access.flush_eq]
      by_cases refused : (!(e.pending l).isEmpty && l.store.refusing) = true
      · rw [if_pos refused, if_pos refused]
      · rw [if_neg refused, if_neg refused]

namespace Ledger

variable {l l' : Ledger} {e : Entry} {r r' : Request}

/-- The namespaces of the contracts that a call runs, which are none if `opening` refuses
it. -/
def ran (l : Ledger) (r : Request) : Spaces :=
  match l.opening r with
  | .error _ => ∅
  | .ok e => (e.run l).1.executed

/-- What a call writes to the store: `Entry.pending` if it is a success. -/
def written (l : Ledger) (r : Request) : WriteSet :=
  match l.opening r with
  | .error _ => ∅
  | .ok e => if (e.verdict l (e.run l).1).settlement.success then e.pending l else ∅

theorem ran_of_entered (h : l.opening r = .ok e) : l.ran r = (e.run l).1.executed := by
  unfold ran
  rw [h]

theorem written_of_entered (h : l.opening r = .ok e) :
    l.written r = if (e.verdict l (e.run l).1).settlement.success then e.pending l else ∅ := by
  unfold written
  rw [h]

theorem written_of_refused {refusal : Refusal} (h : l.opening r = .error refusal) :
    l.written r = ∅ := by
  unfold written
  rw [h]

/-- The store takes what a call has `written`. -/
theorem store_answer (l : Ledger) (r : Request) :
    (l.answer r).2.store = Access.flushed l.store (l.written r) := by
  cases opened : l.opening r with
  | error refusal =>
    rw [answer_of_refused opened, written_of_refused opened]
    rfl
  | ok e =>
    obtain ⟨-, -, -, ready⟩ := opening_eq_ok opened
    rw [answer_of_entered opened, written_of_entered opened]
    dsimp only [answered]
    rcases Entry.verdict_cases ready with ⟨failed, same, -⟩ | ⟨success, flushed, -⟩
    · rw [failed, same]
      rfl
    · rw [if_pos success]
      rw [Access.flush_eq] at flushed
      split at flushed
      · cases flushed
      · exact (Except.ok.inj flushed).symm

/-- A call that is no deploy has `written` only for contracts that it `ran`. -/
theorem space_of_written (kind : r.kind ≠ .deploy) {key : StateKey}
    (h : (l.written r)[key]? ≠ none) : key.space ∈ l.ran r := by
  cases opened : l.opening r with
  | error refusal =>
    rw [written_of_refused opened] at h
    exact absurd Std.ExtTreeMap.getElem?_empty h
  | ok e =>
    obtain ⟨-, -, deploy, -⟩ := opening_eq_ok opened
    rw [written_of_entered opened] at h
    rw [ran_of_entered opened]
    split at h
    · obtain ⟨op, pending⟩ := Option.ne_none_iff_exists'.1 h
      rcases Entry.pending_cases pending with written | ⟨sourced, -⟩
      · exact ((e.run_sound l).2.2.2.1 key op written).1
      · exact absurd (deploy sourced) kind
    · exact absurd Std.ExtTreeMap.getElem?_empty h

/-! ## Calls aside -/

/-- What a call runs over is the same on two ledgers: they have the same code records, and
the same entries of the contracts that the call `ran` on the first one. -/
structure Aside (l l' : Ledger) (r : Request) : Prop where
  first : l.Coherent
  second : l'.Coherent
  coded : l.Coded
  config : l'.config = l.config
  refusing : l'.store.refusing = l.store.refusing
  codes : ∀ id, l'.store.entries[StateKey.code id]? = l.store.entries[StateKey.code id]?
  entries : ∀ key : StateKey, key.space ∈ l.ran r →
    l'.store.entries[key]? = l.store.entries[key]?

theorem resolve_congr {entries other : Committed} {id : ContractId}
    (same : other[StateKey.code id]? = entries[StateKey.code id]?) :
    resolve other id = resolve entries id := by
  unfold resolve codeRecord?
  rw [same]

namespace Aside

/-- A cache that is `Serves` on the second ledger is so on the first one. -/
theorem serves (h : l.Aside l' r) {c : Cache}
    (served : c.Serves l'.store.entries l'.config.admission) :
    c.Serves l.store.entries l.config.admission := by
  rw [h.config] at served
  refine ⟨served.1, fun contract mem recorded => ?_⟩
  rw [← h.codes] at recorded
  exact (served.2 contract mem recorded).congr (h.codes _).symm

theorem resolve (h : l.Aside l' r) (id : ContractId) :
    resolve l'.store.entries id = resolve l.store.entries id :=
  resolve_congr (h.codes id)

theorem opening (h : l.Aside l' r) (kind : r.kind ≠ .deploy) :
    (∃ f c c', l.opening r = .error ⟨f, c⟩ ∧ l'.opening r = .error ⟨f, c'⟩) ∨
      ∃ e c', l.opening r = .ok e ∧ l'.opening r = .ok { e with cache := c' } := by
  have deployed := h.coded.openDeployed_alike h.first.serves (h.serves h.second.serves) h.resolve
  cases r with
  | deploy r => exact absurd rfl kind
  | invoke r => exact deployed _
  | query r => exact deployed _

/-- The entries that differ are felt neither by `run` nor by `resolve`. -/
theorem run (h : l.Aside l' r) {c' : Cache} (opened : l.opening r = .ok e)
    (opened' : l'.opening r = .ok { e with cache := c' }) :
    (Entry.run { e with cache := c' } l').1 = (e.run l).1 := by
  have served := h.first.faithful_of_entered opened
  have served' := h.serves (h.second.faithful_of_entered opened')
  have alike : Surroundings.Alike { l.surroundings with entries := l'.store.entries }
      l'.surroundings fun a b =>
      a.Serves l.store.entries l.config.admission ∧
        b.Serves l.store.entries l.config.admission := by
    refine ⟨rfl, congrArg Config.limits h.config, fun served id => ?_, fun served _ _ _ => served⟩
    change Joined _ _ (Ledger.resolve l.store.entries id _) (Ledger.resolve l'.store.entries id _)
    rw [h.resolve]
    exact h.coded.joined_resolve served.1 served.2 id
  have same := (execute_alike alike e.contract e.context e.view (l.config.budget e.context.kind)
    l.config.checkInterval ⟨served, served'⟩).1
  have unfelt := execute_noninterference l.surroundings l'.store.entries e.contract e.context e.view
    (l.config.budget e.context.kind) l.config.checkInterval e.cache
    fun key mem => h.entries key (by rw [ran_of_entered opened]; exact mem)
  change (execute l'.surroundings e.contract e.context e.view (l'.config.budget e.context.kind)
    l'.config.checkInterval c').1 = _
  rw [h.config]
  exact same.trans (congrArg Prod.fst unfelt)

/-- `answer` reports the same on the second ledger as on the first one, and the same is
`written`. -/
theorem answer (h : l.Aside l' r) (kind : r.kind ≠ .deploy) :
    (l'.answer r).1 = (l.answer r).1 ∧ l'.written r = l.written r := by
  rcases h.opening kind with ⟨f, c, c', opened, opened'⟩ | ⟨e, c', opened, opened'⟩
  · rw [answer_of_refused opened, answer_of_refused opened', written_of_refused opened,
      written_of_refused opened']
    exact ⟨rfl, rfl⟩
  · have ran := h.run opened opened'
    obtain ⟨-, -, -, ready⟩ := opening_eq_ok opened
    obtain ⟨-, -, -, ready'⟩ := opening_eq_ok opened'
    have pending : Entry.pending { e with cache := c' } l' = e.pending l := by
      unfold Entry.pending
      rw [ran]
    have judged := Entry.verdict_eq ready
    have judged' := Entry.verdict_eq ready'
    rw [pending, ran, h.refusing] at judged'
    have same : (Entry.verdict { e with cache := c' } l' (e.run l).1).settlement =
          (e.verdict l (e.run l).1).settlement ∧
        (Entry.verdict { e with cache := c' } l' (e.run l).1).phases =
          (e.verdict l (e.run l).1).phases := by
      rw [judged, judged']
      cases (e.run l).1.result with
      | error f => exact ⟨rfl, rfl⟩
      | ok v =>
        dsimp only
        split
        · exact ⟨rfl, rfl⟩
        · split <;> exact ⟨rfl, rfl⟩
    rw [answer_of_entered opened, answer_of_entered opened', written_of_entered opened,
      written_of_entered opened', pending, ran, same.1]
    dsimp only [answered]
    rw [ran, same.1, same.2]
    exact ⟨rfl, rfl⟩

end Aside

/-! ## Two calls -/

/-- `answer` to a request that is no deploy changes no code record. -/
theorem codes_answer (kind : r.kind ≠ .deploy) (id : ContractId) :
    (l.answer r).2.store.entries[StateKey.code id]? = l.store.entries[StateKey.code id]? := by
  rcases l.code_of_answer r id with ⟨-, same⟩ | ⟨-, -, q, source, rfl, -⟩
  · exact same
  · exact absurd rfl kind

/-- After a call that runs none of the contracts that `r'` runs, `r'` is where it was
(`Aside`). -/
theorem aside_answer (coherent : l.Coherent) (coded : l.Coded) (kind : r.kind ≠ .deploy)
    (apart : ∀ space ∈ l.ran r', space ∉ l.ran r) : l.Aside (l.answer r).2 r' where
  first := coherent
  second := coherent.answer r
  coded := coded
  config := config_answer l r
  refusing := by rw [store_answer, Access.refusing_flushed]
  codes := codes_answer kind
  entries key mem := by
    rw [store_answer, Access.entries_flushed, Committed.getElem?_overlay]
    cases written : (l.written r)[key]? with
    | none => rfl
    | some op =>
      have own := space_of_written kind (written ▸ Option.some_ne_none op)
      exact absurd own (apart key.space mem)

theorem Coded.after (h : l.Coded) (coherent : l.Coherent) (steps : List Step) :
    (l.after steps).Coded := by
  induction steps generalizing l with
  | nil => exact h
  | cons step rest ih => exact ih (h.take coherent step) (coherent.take step)

/-- **Invokes that do not meet commute.**  Let `l` be what a ledger comes to by `after`,
and let no namespace be both in `ran` of `r` and in `ran` of `r'`.  Then both are answered
in the same way in either order, and leave the same store. -/
theorem invokes_commute (config : Config) (steps : List Step) (r r' : InvokeRequest)
    (apart : ∀ space ∈ ((new config {}).after steps).ran (.invoke r),
      space ∉ ((new config {}).after steps).ran (.invoke r')) :
    let l := (new config {}).after steps
    ((l.invoke r).2.invoke r').1 = (l.invoke r').1 ∧
      ((l.invoke r').2.invoke r).1 = (l.invoke r).1 ∧
      ((l.invoke r).2.invoke r').2.store = ((l.invoke r').2.invoke r).2.store := by
  intro l
  have coherent : l.Coherent := (coherent_new config {}).after steps
  have uncoded : (new config {}).Coded := fun _ recorded =>
    absurd Std.ExtTreeMap.getElem?_empty recorded
  have coded : l.Coded := uncoded.after (coherent_new config {}) steps
  have kind : ∀ q, (Request.invoke q).kind ≠ .deploy := fun _ => nofun
  have first : l.Aside (l.invoke r').2 (.invoke r) := aside_answer coherent coded (kind r') apart
  have second : l.Aside (l.invoke r).2 (.invoke r') :=
    aside_answer coherent coded (kind r) fun space mem met => apart space met mem
  obtain ⟨same, written⟩ := first.answer (kind r)
  obtain ⟨same', written'⟩ := second.answer (kind r')
  refine ⟨same', same, ?_⟩
  have stored : ∀ (l : Ledger) q,
      (l.invoke q).2.store = Access.flushed l.store (l.written (.invoke q)) :=
    fun l q => store_answer l (.invoke q)
  rw [stored, stored, stored, stored, written, written']
  refine Access.flushed_comm (fun key mem => ?_) l.store
  cases met : (l.written (.invoke r'))[key]? with
  | none => rfl
  | some op =>
    have ran := space_of_written (kind r') (met ▸ Option.some_ne_none op)
    exact absurd ran (apart key.space (space_of_written (kind r) mem))

end Ledger

namespace DisjointInvokes

/-- Keeps something under the name of the method. -/
def deploy : DeployRequest where
  source := Text.utf8
    "function Init()\x7breturn 1;\x7dfunction Invoke(m)\x7bPutState(m,1);return 1;\x7d"
  args := .null

def id : ContractId := ContractId.ofSource deploy.source

def invoke : InvokeRequest where
  contract := id
  method := "n"
  args := .null

def steps : List Step := [.call (.deploy Reload.deploy), .call (.deploy deploy)]

/-- `invokes_commute` for a contract that keeps something and one that answers its method. -/
theorem disjoint_commute :
    let l := (Ledger.new {} {}).after steps
    (∀ space ∈ l.ran (.invoke invoke), space ∉ l.ran (.invoke Reload.invoke)) ∧
      ((l.invoke invoke).2.invoke Reload.invoke).1 = (l.invoke Reload.invoke).1 ∧
      ((l.invoke Reload.invoke).2.invoke invoke).1 = (l.invoke invoke).1 ∧
      ((l.invoke invoke).2.invoke Reload.invoke).2.store =
        ((l.invoke Reload.invoke).2.invoke invoke).2.store := by
  intro l
  have alone : (l.ran (.invoke invoke)).toList = [id.space] ∧
      (l.ran (.invoke Reload.invoke)).toList = [Reload.id.space] ∧ id.space ≠ Reload.id.space := by
    decide +kernel
  have apart : ∀ space ∈ l.ran (.invoke invoke), space ∉ l.ran (.invoke Reload.invoke) := by
    intro space mem met
    rw [← Std.ExtTreeSet.mem_toList] at mem met
    rw [alone.1, List.mem_singleton] at mem
    rw [alone.2.1, List.mem_singleton] at met
    exact alone.2.2 (mem.symm.trans met)
  exact ⟨apart, Ledger.invokes_commute {} steps invoke Reload.invoke apart⟩

end DisjointInvokes

end LedgerScript
