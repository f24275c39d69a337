import LedgerScript.Proofs.Ledger.Loading
import LedgerScript.Proofs.Ledger.WriteIsolation
import LedgerScript.Proofs.Machine.CallStack

/-!
# The contexts of a call

A ledger finds contracts under their own identities (`Ledger.named`), and it opens a
call with the contract that the context says (`Ledger.own_of_entered`).  So a call
keeps its contexts in order, whatever contracts it runs.  Main statement:
`contexts_sound`.
-/

namespace LedgerScript

theorem Cache.id_of_load {c next : Cache} {source : List UInt8} {contract : Contract}
    (h : c.load source = (.ok contract, next)) : contract.id = ContractId.ofSource source := by
  obtain ⟨-, found⟩ := c.load_cases source
  rw [h] at found
  rcases found with ⟨held, -, own, same, -⟩ | ⟨accepted, -⟩
  · cases same
    exact own
  · exact Admission.id_of_accept accepted.symm

namespace Ledger

variable {l : Ledger} {r : Request} {e : Entry}

theorem id_of_reload {id : ContractId} {record : CodeRecord} {before after : Cache}
    {contract : Contract} (h : reload id record before = .ok contract after) :
    contract.id = id := by
  unfold reload at h
  split at h
  · split at h
    · cases h
    · split at h
      · rename_i own
        cases h
        exact own
      · cases h
  · cases h

theorem named (l : Ledger) : l.surroundings.Named := by
  intro id before after contract h
  change resolve l.store.entries id before = .ok contract after at h
  have looked := (before.get_cases id).2.2
  unfold resolve at h
  split at h
  · cases h
  · cases h
  · generalize before.get id = looking at h looked
    obtain ⟨_ | held, next⟩ := looking
    · exact id_of_reload h
    · cases h
      rcases looked with ⟨other, -, own, same⟩ | ⟨-, none⟩
      · cases same
        exact own
      · cases none

/-- `opening` gives the contract that the context names, and a context of depth 0. -/
theorem own_of_entered (opened : l.opening r = .ok e) :
    e.contract.id = e.context.contract ∧ e.context.depth = 0 := by
  have deployed : ∀ context : Context, context.depth = 0 → l.openDeployed context = .ok e →
      e.contract.id = e.context.contract ∧ e.context.depth = 0 := by
    intro context outermost opened
    unfold openDeployed at opened
    split at opened
    · cases opened
    · rename_i found
      cases opened
      exact ⟨l.named found, outermost⟩
  cases r with
  | deploy r =>
    obtain ⟨source, -, loaded, -, context, -⟩ := openSource_eq_ok opened
    rw [context]
    exact ⟨Cache.id_of_load loaded, rfl⟩
  | invoke r => exact deployed _ rfl opened
  | query r => exact deployed _ rfl opened

end Ledger

namespace Entry

/-- Runs the entry point over the surroundings that `CallStack.tracing` makes. -/
def watched (e : Entry) (l : Ledger) : Outcome × (Cache × CallStack.Notes) :=
  execute (CallStack.tracing l.surroundings) e.contract e.context e.view
    (l.config.budget e.context.kind) l.config.checkInterval (e.cache, { codes := [e.contract] })

/-- The moments that `watched` notes, the last one first. -/
def moments (e : Entry) (l : Ledger) : List CallStack.Moment := (e.watched l).2.2.moments

end Entry

/-- **Contexts are in order.**  At every moment of every run, which is not felt to be
watched, the contexts on the stack are `CallStack.Sound`: they are those of the contracts
whose code runs and waits, no two of them are of one contract, each has the namespace of
its own contract, and each is as the contract below it has made it.  A state function
that is called then acts in the namespace of the contract whose code runs
(`Evaluator.ActsIn`).  A `callContract` of any evaluator of the run, `Evaluator.ofLevels`,
leaves the stack as it was before, however it ends. -/
theorem Ledger.contexts_sound (l : Ledger) {r : Request} {e : Entry}
    (opened : l.opening r = .ok e) :
    (e.watched l).1 = (e.run l).1 ∧
      (∀ moment ∈ e.moments l,
        CallStack.Sound e.context moment.codes moment.host.contexts ∧
          ∃ code, moment.codes.head? = some code ∧
            ∀ (x : Evaluator Cache) (f : HostFunction) (args : List Value) (m : Machine Cache),
              f.stateful = true → m.host = moment.host →
                x.ActsIn l.surroundings f args code.id.space m) ∧
      ∀ (level : Nat) (target method : String) (args : Value) (m next : Machine Cache),
        Ends ((Evaluator.ofLevels l.surroundings level).callContract l.surroundings target
          method args) m next → next.host.contexts = m.host.contexts := by
  obtain ⟨own, outermost⟩ := own_of_entered opened
  obtain ⟨-, -, -, ready⟩ := opening_eq_ok opened
  have unfelt : (e.watched l).1 = (e.run l).1 :=
    CallStack.execute_tracing l.surroundings e.contract e.context e.view
      (l.config.budget e.context.kind) l.config.checkInterval e.cache { codes := [e.contract] }
  refine ⟨unfelt, fun moment mem => ?_, fun level target method args m next ends =>
    (Evaluator.keepsContexts_ofLevels _ level).callContract target method args ends⟩
  have sound := CallStack.ofRun_sound l.named own ready.space outermost e.view
    (l.config.budget e.context.kind) l.config.checkInterval e.cache moment mem
  refine ⟨sound, ?_⟩
  cases contexts : moment.host.contexts with
  | nil =>
    have first := sound.first
    rw [contexts] at first
    cases first
  | cons running callers =>
    rw [contexts] at sound
    cases codes : moment.codes with
    | nil =>
      have same := sound.codes
      rw [codes] at same
      cases same
    | cons code waiting =>
      rw [codes] at sound
      refine ⟨code, rfl, fun x f args m stateful same => ?_⟩
      have current : m.host.current? = some running := by
        rw [same]
        exact congrArg List.head? contexts
      have here : code.id.space = running.space := by
        rw [sound.space running List.mem_cons_self, List.head_eq_of_cons_eq sound.codes]
      rw [here]
      exact Evaluator.actsIn current stateful args

namespace NestedWriter

/-- The writer calls `PutState` while the caller waits. -/
def writing (moment : CallStack.Moment) : Bool :=
  moment.event = .hosted .putState ∧
    moment.host.contexts.map Context.contract = [writer.id, caller.id]

/-- There is a moment at which one contract waits for another one that writes. -/
theorem contexts_of_writer :
    ∃ e, ledger.opening request = .ok e ∧ (e.moments ledger).any writing = true ∧
      (e.watched ledger).1 = (e.run ledger).1 ∧
      (∀ moment ∈ e.moments ledger,
        CallStack.Sound e.context moment.codes moment.host.contexts ∧
          ∃ code, moment.codes.head? = some code ∧
            ∀ (x : Evaluator Cache) (f : HostFunction) (args : List Value) (m : Machine Cache),
              f.stateful = true → m.host = moment.host →
                x.ActsIn ledger.surroundings f args code.id.space m) ∧
        ∀ (level : Nat) (target method : String) (args : Value) (m next : Machine Cache),
          Ends ((Evaluator.ofLevels ledger.surroundings level).callContract ledger.surroundings
            target method args) m next → next.host.contexts = m.host.contexts := by
  have written : (ledger.opening request).toOption.any
      (fun e => (e.moments ledger).any writing) = true := by
    decide +kernel
  obtain ⟨e, opened, some⟩ := exists_ok_of_any written
  exact ⟨e, opened, some, Ledger.contexts_sound ledger opened⟩

end NestedWriter

end LedgerScript
