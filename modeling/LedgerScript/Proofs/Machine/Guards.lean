import LedgerScript.Proofs.Machine.Parametricity
import LedgerScript.Proofs.State.Refusals

/-!
# Errors that no run has

The host defends itself against its own faults with errors of their own
(`ContractError.Defensive`).  One of them says that no contract runs
(`Exec.noContext`): a run begins with one context, and every part of it leaves the
contexts as they were (`Exec.KeepsContexts`), so there is always one to be found.  No
part of a run fails with a defensive error, unless finding a contract does.  Main
statement: `execute_guarded`.
-/

namespace LedgerScript

variable {σ α β : Type}

/-- An error by which a ledger defends itself against its own faults. -/
def ContractError.Defensive : ContractError → Prop
  | .invariantViolated _ | .stateConflict _ => True
  | _ => False

theorem ContractError.OfAccess.not_defensive {e : ContractError} (h : e.OfAccess) :
    ¬ e.Defensive := by
  intro defensive
  cases e <;> first | exact h | exact defensive

theorem ContractError.Exhausted.not_defensive {e : ContractError} (h : e.Exhausted) :
    ¬ e.Defensive := by
  cases e with
  | exhausted => exact not_false
  | _ => exact False.elim h

/-- A computation over any state that fails with no `Defensive` error. -/
def Guarded {S : Type} (x : EStateM ContractError S α) : Prop :=
  ∀ m next e, x m = .error e next → ¬ e.Defensive

theorem Viewing.Refuses.guarded {x : Viewing α} (hx : x.Refuses) : Guarded x :=
  fun _ _ _ failed => (hx failed).not_defensive

/-- While a contract runs, a run fails with no `Defensive` error; afterwards the same
contract runs. -/
structure Exec.Guarded (x : Exec σ α) : Prop where
  keeps : x.KeepsContexts
  fails : ∀ ⦃m next : Machine σ⦄ ⦃e : ContractError⦄, m.host.contexts ≠ [] →
    x m = .error e next → ¬ e.Defensive

namespace Exec.Guarded

/-- What is `LedgerScript.Guarded` is so whether a contract runs or not. -/
theorem of_guarded {x : Exec σ α} (keeps : x.KeepsContexts) (hx : LedgerScript.Guarded x) :
    x.Guarded :=
  ⟨keeps, fun _ _ _ _ failed => hx _ _ _ failed⟩

theorem pure (a : α) : (Pure.pure a : Exec σ α).Guarded :=
  .of_guarded (.pure a) fun _ _ _ h => by cases h

theorem throw {e : ContractError} (he : ¬ e.Defensive) :
    (MonadExcept.throw e : Exec σ α).Guarded :=
  .of_guarded (.throw e) fun _ _ _ h => by
    cases h
    exact he

theorem bind {x : Exec σ α} {f : α → Exec σ β} (hx : x.Guarded) (hf : ∀ a, (f a).Guarded) :
    (x >>= f).Guarded where
  keeps := hx.keeps.bind fun a => (hf a).keeps
  fails m next e runs h := by
    cases hm : x m with
    | ok a mid =>
      rw [bind_of_ok hm] at h
      have runs' : mid.host.contexts ≠ [] := hx.keeps (.inl ⟨a, hm⟩) ▸ runs
      exact (hf a).fails runs' h
    | error f mid =>
      rw [bind_of_error hm] at h
      cases h
      exact hx.fails runs hm

theorem modified {f : Machine σ → Machine σ}
    (hf : ∀ m, (f m).host.contexts = m.host.contexts) : (modify f : Exec σ PUnit).Guarded :=
  .of_guarded (.modified hf) fun _ _ _ h => by cases h

theorem closing {x : Exec σ α} (hx : x.Guarded) {close : Machine σ → Machine σ}
    (hc : ∀ m, (close m).host.contexts = m.host.contexts) : (Exec.closing x close).Guarded where
  keeps := hx.keeps.closing hc
  fails m next e runs h := by
    unfold Exec.closing at h
    cases hm : x m <;> rw [hm] at h <;> cases h
    exact hx.fails runs hm

theorem charged {x : Metered Unit} (hx : Meter.Charge x) :
    (Exec.metered x : Exec σ Unit).Guarded := by
  refine .of_guarded (.metered x) fun m next e h => ?_
  unfold Exec.metered at h
  cases hm : x m.host.meter <;> rw [hm] at h <;> cases h
  exact (hx.exhausted hm).not_defensive

theorem viewing {x : Viewing α} (hx : x.Refuses) : (Exec.viewing x : Exec σ α).Guarded := by
  refine .of_guarded (.viewing x) fun m next e h => ?_
  unfold Exec.viewing at h
  cases hm : x m.host.view <;> rw [hm] at h <;> cases h
  exact hx.guarded _ _ _ hm

theorem vars (f : Variables → Variables) : (Exec.vars f : Exec σ Unit).Guarded :=
  .of_guarded (.vars f) fun _ _ _ h => by cases h

theorem lookup (name : String) : (Exec.lookup name : Exec σ Slot).Guarded := by
  refine .of_guarded (.lookup name) fun m next e h => ?_
  unfold Exec.lookup at h
  split at h <;> cases h
  exact not_false

theorem store (root : String) (keys : List PathKey) (v : Value) :
    (Evaluator.store root keys v : Exec σ Unit).Guarded := by
  refine bind (lookup root) fun slot => ?_
  split
  · exact throw (e := .script _) id
  · refine .of_guarded (.change _ _ _) fun m next e h => ?_
    unfold Exec.change at h
    split at h <;> cases h
    exact not_false

/-- `withContext` finds a context, for there is a contract that runs. -/
theorem withContext {f : Context → Exec σ α} (hf : ∀ c, (f c).Guarded) :
    (Exec.withContext f).Guarded where
  keeps := .withContext fun c => (hf c).keeps
  fails m next e runs h := by
    obtain ⟨c, callers, stack⟩ := List.exists_cons_of_ne_nil runs
    have running : m.host.current? = some c := congrArg List.head? stack
    rw [Exec.withContext_of_some running] at h
    exact (hf c).fails runs h

/-! ### Nested calls -/

section Calls

variable {s : Surroundings σ} (found : ∀ id, LedgerScript.Guarded (s.resolve id))
  {x : Evaluator σ} (hx : ∀ p name args, (x.run p name args).Guarded)

include hx

theorem not_defensive_of_enter {contract : Contract} {child : Context} {m next : Machine σ}
    {e : ContractError} (h : x.enter s contract child m = .error e next) : ¬ e.Defensive := by
  cases hm : x.run contract.program EntryPoint.invoke.name child.entryArgs (m.entering s child) with
  | ok v mid =>
    rw [Evaluator.enter_of_ok hm] at h
    cases h
  | error f mid =>
    rw [Evaluator.enter_of_error hm] at h
    cases h
    exact (hx _ _ _).fails (List.cons_ne_nil _ _) hm

include found

theorem not_defensive_of_callFound {callee : ContractId} {child : Context} {m next : Machine σ}
    {e : ContractError} (h : x.callFound s callee (some child) m = .error e next) :
    ¬ e.Defensive := by
  cases hm : s.resolve callee m.outside with
  | error f outside =>
    rw [Evaluator.callFound_of_error _ hm] at h
    cases h
    exact found _ _ _ _ hm
  | ok contract outside =>
    rw [Evaluator.callFound_of_ok child hm] at h
    split at h
    · exact not_defensive_of_enter hx h
    · cases h
      exact not_false

theorem callContract (target method : String) (args : Value) :
    (x.callContract s target method args).Guarded where
  keeps := Evaluator.KeepsContexts.callContract (fun p name args => (hx p name args).keeps)
    target method args
  fails m next e runs h := by
    obtain ⟨c, callers, stack⟩ := List.exists_cons_of_ne_nil runs
    have running : m.host.current? = some c := congrArg List.head? stack
    rw [Evaluator.callContract_eq, running] at h
    split at h
    · cases h
      exact not_false
    · split at h
      · cases h
        exact not_false
      · exact not_defensive_of_callFound found hx h

end Calls

end Exec.Guarded

/-- Every part of a run is `Exec.Guarded` where `resolve` is `Guarded`. -/
theorem parametric_guarded {s : Surroundings σ} (found : ∀ id, Guarded (s.resolve id)) :
    Parametric s s fun _ _ x _ => Exec.Guarded x where
  pure _ _ a := .pure a
  bind := .bind
  widen := id
  fault _ := .throw id
  missing _ := .throw id
  ground := .throw id
  turns := .throw id
  steps n := .charged (.steps n)
  memory n := .charged (.memory n)
  lookup := .lookup
  declareGlobal _ _ := .vars _
  declare _ _ := .vars _
  store := .store
  inScope hx := .bind (.vars _) fun _ => .closing hx fun _ => rfl
  inFrame _ _ _ hx :=
    .bind (.charged .frame) fun _ => .bind (.vars _) fun _ => .closing hx fun _ => rfl
  nested hx :=
    .bind (.charged .nesting) fun _ => .bind (.modified fun _ => rfl) fun _ =>
      .closing (.bind (.charged (.steps 1)) fun _ => hx) fun _ => rfl
  builtin _ := .modified fun _ => rfl
  hosted _ := .modified fun _ => rfl
  getState key := .withContext fun c => .viewing (.get s.entries s.limits c.space key)
  putState key v := .withContext fun c => .viewing (.set s.limits c.space key v)
  delState key := .withContext fun c => .viewing (.delete s.limits c.space key)
  told _ := .withContext fun _ => .pure _
  logLine _ := .withContext fun _ => .modified fun _ => rfl
  callContract _ _ hx := .callContract found hx

/-- **No run fails with a `Defensive` error**, as long as `resolve` does not: `execute`
begins with one context on the stack, and every part of the run keeps the stack. -/
theorem execute_guarded {s : Surroundings σ} (found : ∀ id, Guarded (s.resolve id))
    (contract : Contract) (context : Context) (view : View) (budget : Budget) (interval : UInt64)
    (outside : σ) {e : ContractError}
    (failed : (execute s contract context view budget interval outside).1.result = .error e) :
    ¬ e.Defensive := by
  have guarded := (parametric_guarded found).runEntry contract context
  cases ran : runEntry s contract context
      (Machine.start (Host.new (Meter.new budget interval) view context) outside) with
  | ok v next =>
    rw [execute_of_ok ran] at failed
    cases failed
  | error f next =>
    rw [execute_of_error ran] at failed
    cases failed
    exact guarded.fails (List.cons_ne_nil _ _) ran

end LedgerScript
