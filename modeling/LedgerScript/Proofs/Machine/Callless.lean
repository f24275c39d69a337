import LedgerScript.Proofs.Machine.Unmetered
import LedgerScript.Proofs.Script.Acts

/-!
# Expressions without calls

All that an expression can change it changes through the functions that it calls.
Without calls it charges for its evaluation, and that is all
(`Evaluator.quiet_eval`).
-/

namespace LedgerScript

open Script (Program Expr Accessor)

variable {σ α β : Type}

/-- Nothing is called, and nothing is asked of values. -/
def Regime.callless : Regime where
  value _ := True
  act _ act := ∀ name, act ≠ .call name

/-- `x.Quiet`: where `x` comes to a result, nothing but the meter has changed. -/
def Exec.Quiet (x : Exec σ α) : Prop := ∀ ⦃m next a⦄, x m = .ok a next → m.Recharged next

namespace Exec

variable {x : Exec σ α}

theorem quiet_pure (a : α) : (pure a : Exec σ α).Quiet := by
  intro m next b ran
  cases ran
  exact .refl m

theorem quiet_throw (e : ContractError) : (throw e : Exec σ α).Quiet := fun _ _ _ ran => nomatch ran

theorem Quiet.bind {f : α → Exec σ β} (hx : x.Quiet) (hf : ∀ a, (f a).Quiet) :
    (x >>= f).Quiet := by
  intro m next b ran
  obtain ⟨a, mid, first, second⟩ := bind_eq_ok ran
  exact (hx first).trans (hf a second)

theorem quiet_lookup (name : String) : (lookup name : Exec σ Slot).Quiet := by
  intro m next slot ran
  unfold lookup at ran
  split at ran <;> cases ran
  exact .refl m

theorem Charges.quiet {x : Exec σ Unit} (hx : x.Charges) : x.Quiet := by
  intro m next a ran
  rcases hx m with ⟨mid, charged, same⟩ | ⟨e, mid, failed, -⟩
  · cases charged.symm.trans ran
    exact same
  · cases failed.symm.trans ran

theorem Quiet.modify {f : Machine σ → Machine σ} (hf : ∀ m : Machine σ, m.Recharged (f m)) :
    (modify f : Exec σ PUnit).Quiet := by
  intro m next a ran
  cases ran
  exact hf m

theorem Quiet.closing (hx : x.Quiet) {close : Machine σ → Machine σ}
    (hc : ∀ m : Machine σ, m.Recharged (close m)) : (closing x close).Quiet := by
  intro m next a ran
  unfold Exec.closing at ran
  cases inner : x m with
  | error e later =>
    rw [inner] at ran
    cases ran
  | ok b later =>
    rw [inner] at ran
    cases ran
    exact (hx inner).trans (hc later)

/-- All that expressions are put together from is `Quiet`, but for calls. -/
theorem quiet_exprs :
    ParametricExprs .callless (fun _ _ _ _ x _ => x.Quiet : HoldingRelation σ σ) where
  null := trivial
  bool _ := trivial
  int _ := trivial
  part _ _ := trivial
  making := Regime.making_of_forall fun _ => trivial
  pure _ _ _ _ a _ := quiet_pure a
  bind hx hf := Quiet.bind hx fun a => hf a (Holding.each_of_forall (fun _ => trivial) a)
  fault _ _ _ f := quiet_throw (.script f)
  steps _ n := (charges_metered (.steps n)).quiet
  made _ v _ := (charges_chargeNew v).quiet.bind fun _ => quiet_pure v
  lookup _ := quiet_lookup

end Exec

namespace Evaluator

variable {entries : Committed} {limits : StateLimits}
  {resolve : ContractId → EStateM ContractError σ Contract}

theorem quiet_nested {x : Exec σ α} (hx : x.Quiet) :
    (nested (.unwatched entries limits resolve) x).Quiet :=
  .bind (Exec.charges_metered .nesting).quiet fun _ => .bind (.modify .refl) fun _ =>
    .closing (.bind (Exec.charges_metered (.steps 1)).quiet fun _ => hx) fun m =>
      ⟨m.host.meter.exitNesting, rfl⟩

/-- An expression without calls is `Quiet`.  The induction is on the levels. -/
theorem quiet_eval (level : Nat) (p : Program) (e : Expr)
    (callless : Regime.callless.Allows p e.acts) :
    ((ofLevels (.unwatched entries limits resolve) level).eval p e).Quiet := by
  induction level generalizing e with
  | zero => exact Exec.quiet_throw _
  | succ level ih =>
    let s : Surroundings σ := .unwatched entries limits resolve
    exact quiet_nested (Exec.quiet_exprs.evalBody (y := ofLevels s level) (t := s) ih
      (fun name _ called _ => absurd rfl (called name)) e callless)

theorem quiet_evalKeys (level : Nat) (p : Program) (path : List Accessor)
    (callless : Regime.callless.Allows p (path.flatMap Accessor.acts)) :
    ((ofLevels (.unwatched entries limits resolve) level).evalKeys p path).Quiet :=
  let s : Surroundings σ := .unwatched entries limits resolve
  Exec.quiet_exprs.evalKeys (y := ofLevels s level) (quiet_eval level p) path callless

end Evaluator

end LedgerScript
