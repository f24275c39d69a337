import LedgerScript.Proofs.Machine.Closure
import LedgerScript.Proofs.Machine.NestedCall

/-!
# The stack of contexts

A contract that is called runs with its context on top of the others
(`Host.entering`), and when it has returned or failed one context is taken off
(`Host.returning`).  That this is its own context again needs that the run of
the contract has left the stack as it found it, and every part of a run does
(`Exec.KeepsContexts`), calls of other contracts included
(`Evaluator.KeepsContexts.callContract`).  Main statement:
`Evaluator.keepsContexts_ofLevels`.
-/

namespace LedgerScript

open Script (Program)

variable {σ α β : Type}

/-- However the run ends, the `contexts` of the host are the ones before it. -/
def Exec.KeepsContexts (x : Exec σ α) : Prop :=
  ∀ ⦃m next : Machine σ⦄, Ends x m next → next.host.contexts = m.host.contexts

/-- Every `run` of every program is `Exec.KeepsContexts`. -/
def Evaluator.KeepsContexts (x : Evaluator σ) : Prop :=
  ∀ (p : Program) (name : String) (args : List Value), (x.run p name args).KeepsContexts

/-- What a called contract leaves has the contexts of its caller once `Host.returning`
takes its own off. -/
def Machine.Restores (before next : Machine σ) : Prop :=
  next.host.returning.contexts = before.host.contexts

namespace Exec.KeepsContexts

theorem of_results {x : Exec σ α}
    (ok : ∀ {m next a}, x m = .ok a next → next.host.contexts = m.host.contexts)
    (error : ∀ {m next e}, x m = .error e next → next.host.contexts = m.host.contexts) :
    x.KeepsContexts := by
  rintro m next (⟨a, h⟩ | ⟨e, h⟩)
  · exact ok h
  · exact error h

theorem pure (a : α) : (Pure.pure a : Exec σ α).KeepsContexts :=
  .of_results (fun h => by cases h; rfl) fun h => by cases h

theorem throw (e : ContractError) : (MonadExcept.throw e : Exec σ α).KeepsContexts :=
  .of_results (fun h => by cases h) fun h => by cases h; rfl

theorem bind {x : Exec σ α} {f : α → Exec σ β} (hx : x.KeepsContexts)
    (hf : ∀ a, (f a).KeepsContexts) : (x >>= f).KeepsContexts := by
  intro m next ends
  rcases ends.of_bind with ⟨e, failed⟩ | ⟨a, mid, first, second⟩
  · exact hx (.inr ⟨e, failed⟩)
  · exact (hf a second).trans (hx (.inl ⟨a, first⟩))

theorem modified {f : Machine σ → Machine σ}
    (hf : ∀ m, (f m).host.contexts = m.host.contexts) :
    (modify f : Exec σ PUnit).KeepsContexts :=
  .of_results (fun h => by cases h; exact hf _) fun h => by cases h

theorem closing {x : Exec σ α} (hx : x.KeepsContexts) {close : Machine σ → Machine σ}
    (hc : ∀ m, (close m).host.contexts = m.host.contexts) :
    (Exec.closing x close).KeepsContexts := by
  intro m next ends
  obtain ⟨last, ran, rfl⟩ := Ends.of_closing ends
  exact (hc last).trans (hx ran)

theorem metered (x : Metered α) : (Exec.metered x : Exec σ α).KeepsContexts := by
  refine .of_results (fun {m _ _} h => ?_) fun {m _ _} h => ?_ <;>
    unfold Exec.metered at h <;> cases ran : x m.host.meter <;> rw [ran] at h <;> cases h <;> rfl

theorem viewing (x : Viewing α) : (Exec.viewing x : Exec σ α).KeepsContexts := by
  refine .of_results (fun {m _ _} h => ?_) fun {m _ _} h => ?_ <;>
    unfold Exec.viewing at h <;> cases ran : x m.host.view <;> rw [ran] at h <;> cases h <;> rfl

theorem outside (x : EStateM ContractError σ α) : (Exec.outside x).KeepsContexts := by
  refine .of_results (fun {m _ _} h => ?_) fun {m _ _} h => ?_ <;>
    unfold Exec.outside at h <;> cases ran : x m.outside <;> rw [ran] at h <;> cases h <;> rfl

theorem change (name : String) (held : Value) (x : Value.Change) :
    (Exec.change name held x : Exec σ Unit).KeepsContexts := by
  refine .of_results (fun h => ?_) fun h => ?_ <;>
    unfold Exec.change at h <;> cases ran : x held <;> rw [ran] at h <;> cases h <;> rfl

theorem vars (f : Variables → Variables) : (Exec.vars f : Exec σ Unit).KeepsContexts :=
  .of_results (fun h => by cases h; rfl) fun h => by cases h

theorem host {f : Host → Host} (hf : ∀ h, (f h).contexts = h.contexts) :
    (Exec.host f : Exec σ Unit).KeepsContexts :=
  .of_results (fun h => by cases h; exact hf _) fun h => by cases h

theorem lookup (name : String) : (Exec.lookup name : Exec σ Slot).KeepsContexts := by
  refine .of_results (fun h => ?_) fun h => ?_ <;>
    unfold Exec.lookup at h <;> split at h <;> cases h <;> rfl

theorem withContext {f : Context → Exec σ α} (hf : ∀ c, (f c).KeepsContexts) :
    (Exec.withContext f).KeepsContexts := by
  refine bind (.of_results (fun h => ?_) fun h => ?_) hf <;>
    unfold Exec.current at h <;> split at h <;> cases h <;> rfl

end Exec.KeepsContexts

/-! ## Runs of contracts -/

namespace Evaluator

variable {s : Surroundings σ} {x : Evaluator σ}

/-- The context that `Host.returning` takes off is that of the called contract. -/
theorem KeepsContexts.leaving (hx : x.KeepsContexts) {p : Program} {name : String}
    {args : List Value} {m next : Machine σ} {child : Context}
    (ran : Ends (x.run p name args) (m.entering s child) next) : m.Restores next :=
  congrArg List.tail (hx p name args ran)

/-- `callContract` leaves the contexts as they were, whether it returns or fails. -/
theorem KeepsContexts.callContract (hx : x.KeepsContexts) (target method : String)
    (args : Value) : (x.callContract s target method args).KeepsContexts := by
  unfold Evaluator.callContract
  cases ContractId.ofHex target with
  | error f => exact .throw _
  | ok callee =>
    refine .bind (.of_results (fun h => by cases h; rfl) fun h => by cases h) fun m => ?_
    dsimp only
    split
    · exact .throw _
    · refine .bind (.outside _) fun contract => ?_
      split
      · refine .withContext fun c => .bind (fun before next ends => ?_) fun v => ?_
        · rcases ends with ⟨v, h⟩ | ⟨e, h⟩ <;> rw [runContract_eq] at h <;> split at h <;>
            cases h <;> rename_i ran
          · exact hx.leaving (.inl ⟨_, ran⟩)
          · exact hx.leaving (.inr ⟨_, ran⟩)
        · refine .bind (.modified fun _ => rfl) fun _ => ?_
          split
          · exact .bind (.host fun _ => rfl) fun _ => .pure v
          · exact .pure v
      · exact .throw _

/-- Every part of a run is `Exec.KeepsContexts`. -/
theorem parts_keepContexts (s : Surroundings σ) :
    ParametricParts .lax s s fun _ _ _ _ x (_ : Exec σ _) => x.KeepsContexts where
  null := trivial
  bool _ := trivial
  int _ := trivial
  part _ _ := trivial
  making := Regime.making_of_forall fun _ => trivial
  pure _ _ _ _ a _ := .pure a
  bind hx hf := .bind hx fun a => hf a (Regime.each_lax a)
  widen hx := hx
  fault _ _ _ _ := .throw _
  missing _ _ := .throw _
  ground _ _ _ := .throw _
  turns _ _ _ := .throw _
  steps _ _ := .metered _
  memory _ _ := .metered _
  made _ v _ := by
    refine .bind ?_ fun _ => .pure v
    unfold Exec.chargeNew
    split
    · exact .metered _
    · exact .metered _
    · exact .metered _
    · exact .pure ()
  lookup _ := .lookup
  declareGlobal _ _ _ _ := .vars _
  declare _ _ _ _ := .vars _
  store root _ _ _ _ := by
    refine .bind (.lookup root) fun slot => ?_
    split
    · exact .throw _
    · exact .change _ _ _
  inScope hx := .bind (.vars _) fun _ => .closing hx fun _ => rfl
  inFrame _ _ _ _ _ hx :=
    .bind (.metered _) fun _ => .bind (.vars _) fun _ => .closing hx fun _ => rfl
  nested hx :=
    .bind (.metered _) fun _ => .bind (.modified fun _ => rfl) fun _ =>
      .closing (.bind (.metered _) fun _ => hx) fun _ => rfl
  builtin _ _ _ := .modified fun _ => rfl
  hosted _ _ _ := .modified fun _ => rfl
  getState _ _ := .withContext fun _ => .viewing _
  putState _ _ _ _ := .withContext fun _ => .viewing _
  delState _ _ := .withContext fun _ => .viewing _
  told _ _ _ := .withContext fun _ => .pure _
  logLine _ _ := .withContext fun _ => .host fun _ => rfl

theorem keepsContexts_of_related
    (h : RelatedOn .lax (fun _ _ _ _ x (_ : Exec σ _) => x.KeepsContexts) x x)
    (s : Surroundings σ) : x.KeepsContexts := fun p name args =>
  (parts_keepContexts s).run h (Regime.admits_lax p) name args (Regime.each_lax args)

/-- **Every run leaves the stack of contexts as it was.**  Each of `ofLevels` is
`KeepsContexts`.  The induction is on the levels: the contracts that are called run on the
level below. -/
theorem keepsContexts_ofLevels (s : Surroundings σ) (n : Nat) :
    (ofLevels s n).KeepsContexts := by
  have related : RelatedOn .lax (fun _ _ _ _ x (_ : Exec σ _) => x.KeepsContexts)
      (ofLevels s n) (ofLevels s n) := by
    induction n with
    | zero => exact ⟨fun _ _ _ => .throw _, fun _ _ _ => .throw _⟩
    | succ n below =>
      have calls := keepsContexts_of_related below s
      exact (parts_keepContexts s).above below fun _ target method args _ =>
        calls.callContract target method args
  exact keepsContexts_of_related related s

end Evaluator

end LedgerScript
