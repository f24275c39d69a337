import LedgerScript.Proofs.Machine.Coupling

/-!
# Runs apart from what they charge

What a run charges does not show in what it does, as long as nothing is used up:
runs that begin in machines with different meters come to the same
(`couples_recharged`), on any two levels (`alike_ofLevels`).  Computations that do the
same work in another order or at another price agree (`Agreed`): both come to a value,
or both fail, or one of them has used something up.
-/

namespace LedgerScript

open Script (Program Expr Accessor)

variable {σ α β : Type}

/-- Surroundings whose `notice` does nothing. -/
def Surroundings.unwatched (entries : Committed) (limits : StateLimits)
    (resolve : ContractId → EStateM ContractError σ Contract) : Surroundings σ where
  entries := entries
  limits := limits
  resolve := resolve

/-! ## Machines -/

/-- `m.Recharged n`: `n` is `m` with another meter. -/
def Machine.Recharged (m n : Machine σ) : Prop := ∃ meter, n = m.withMeter meter

namespace Machine.Recharged

variable {m n o : Machine σ}

theorem refl (m : Machine σ) : m.Recharged m := ⟨m.host.meter, rfl⟩

theorem symm (h : m.Recharged n) : n.Recharged m := by
  obtain ⟨meter, rfl⟩ := h
  exact ⟨m.host.meter, rfl⟩

theorem trans (hmn : m.Recharged n) (hno : n.Recharged o) : m.Recharged o := by
  obtain ⟨_, rfl⟩ := hmn
  obtain ⟨meter, rfl⟩ := hno
  exact ⟨meter, rfl⟩

theorem vars (h : m.Recharged n) : n.vars = m.vars := by
  obtain ⟨meter, rfl⟩ := h
  rfl

theorem runsAlike (h : m.Recharged n) : m.host.RunsAlike n.host := by
  obtain ⟨meter, rfl⟩ := h
  exact Host.runsAlike_of_eq rfl

/-- `viewing` is the same on both. -/
theorem coupled_access (f : Namespace → Viewing α) :
    Coupled (Recharged (σ := σ)) ContractError.Exhausted
      (Exec.withContext fun c => Exec.viewing (f c.space))
      (Exec.withContext fun c => Exec.viewing (f c.space)) := by
  refine .access (fun h => h.runsAlike) f f fun {m n} own h => ?_
  obtain ⟨meter, rfl⟩ := h
  change Joined _ _ (f own m.host.view) (f own m.host.view)
  cases f own m.host.view with
  | ok a view => exact .ok ⟨meter, rfl⟩
  | error e view => exact .error ⟨meter, rfl⟩

end Machine.Recharged

/-- The two evaluators do the same but for what they charge. -/
abbrev Evaluator.Alike (x y : Evaluator σ) : Prop :=
  Evaluator.RelatedOn .lax
    (fun _ _ _ _ x y => Coupled (Machine.Recharged (σ := σ)) ContractError.Exhausted x y) x y

section Runs

variable (entries : Committed) (limits : StateLimits)
  (resolve : ContractId → EStateM ContractError σ Contract)

/-- `Recharged` couples runs, up to errors that are `Exhausted`: machines that differ in
their meters stay so. -/
theorem couples_recharged :
    Couples (.unwatched entries limits resolve) (.unwatched entries limits resolve)
      Machine.Recharged ContractError.Exhausted where
  sameVars h := h.vars
  current h := h.runsAlike
  vars := by
    rintro m - ⟨meter, rfl⟩ v
    exact ⟨meter, rfl⟩
  charge hx := .metered fun {m n} h => by
    obtain ⟨meter, rfl⟩ := h
    rcases hx.cases m.host.meter with ⟨a, left⟩ | ⟨e, a, left, stopped⟩
    · rcases hx.cases (m.withMeter meter).host.meter with ⟨b, right⟩ | ⟨e, b, right, stopped⟩
      · rw [left, right]
        exact .ok ⟨b, rfl⟩
      · rw [right]
        exact .right stopped
    · rw [left]
      exact .left stopped
  discharge := by
    rintro m - ⟨meter, rfl⟩ f
    exact ⟨f meter, rfl⟩
  notice h _ := h
  getState key := Machine.Recharged.coupled_access fun own => Access.get entries limits own key
  putState key v := Machine.Recharged.coupled_access fun own => Access.set limits own key v
  delState key := Machine.Recharged.coupled_access fun own => Access.delete limits own key
  log := by
    rintro m - ⟨meter, rfl⟩ line
    exact ⟨meter, rfl⟩
  waits := by
    rintro m - ⟨meter, rfl⟩ callee
    exact .inl rfl
  resolve := by
    rintro m - ⟨meter, rfl⟩ id
    change Joined _ _ (resolve id m.outside) (resolve id m.outside)
    cases resolve id m.outside with
    | ok contract a => exact .ok ⟨meter, rfl⟩
    | error e a => exact .error ⟨meter, rfl⟩
  entering := by
    rintro m - ⟨meter, rfl⟩ c d running running' - callee method args
    cases running.symm.trans running'
    exact ⟨meter, rfl⟩
  leaving := by
    rintro m - next - ⟨meter, rfl⟩ ⟨later, rfl⟩ - -
    exact ⟨later, rfl⟩
  rollback := by
    rintro m - back - ⟨meter, rfl⟩ ⟨later, rfl⟩
    exact ⟨later, rfl⟩

/-- Two levels are `Alike`: they come to the same where no evaluation nests too deep. -/
theorem alike_ofLevels (level level' : Nat) :
    Evaluator.Alike (Evaluator.ofLevels (.unwatched entries limits resolve) level)
      (Evaluator.ofLevels (.unwatched entries limits resolve) level') :=
  (couples_recharged entries limits resolve).related trivial level level'

end Runs

/-! ## Agreement -/

/-- Two computations have come to the same value in machines that differ in their
meters at most, or both to errors, or one of them has used something up. -/
inductive Agreed : EStateM.Result ContractError (Machine σ) α →
    EStateM.Result ContractError (Machine σ) α → Prop
  | ok {a : α} {m n : Machine σ} (h : m.Recharged n) : Agreed (.ok a m) (.ok a n)
  | failed {e f : ContractError} {m n : Machine σ} : Agreed (.error e m) (.error f n)
  | left {e : ContractError} {m : Machine σ} {r} (h : e.Exhausted) : Agreed (.error e m) r
  | right {e : ContractError} {n : Machine σ} {r} (h : e.Exhausted) : Agreed r (.error e n)

theorem Joined.agreed {r r' : EStateM.Result ContractError (Machine σ) α}
    (h : Joined Machine.Recharged ContractError.Exhausted r r') : Agreed r r' := by
  cases h with
  | ok same => exact .ok same
  | error _ => exact .failed
  | left stopped => exact .left stopped
  | right stopped => exact .right stopped

/-- Takes what it charges, or finds it used up. -/
def Exec.Charges (x : Exec σ Unit) : Prop :=
  ∀ m, (∃ next, x m = .ok () next ∧ m.Recharged next) ∨ ∃ e next, x m = .error e next ∧ e.Exhausted

namespace Exec

theorem charges_metered {x : Metered Unit} (hx : Meter.Charge x) :
    (metered x : Exec σ Unit).Charges := by
  intro m
  rcases hx.cases m.host.meter with ⟨meter, charged⟩ | ⟨e, meter, failed, stopped⟩
  · exact .inl ⟨_, metered_of_ok charged, meter, rfl⟩
  · exact .inr ⟨e, _, metered_of_error failed, stopped⟩

theorem charges_pure : (pure () : Exec σ Unit).Charges := fun m => .inl ⟨m, rfl, .refl m⟩

theorem charges_chargeCopy (v : Value) (scanned : Nat) :
    (chargeCopy v scanned : Exec σ Unit).Charges := by
  unfold chargeCopy Meter.chargeCopy
  split
  · exact charges_pure
  · exact charges_metered (.steps _)

theorem charges_chargeNew (v : Value) : (chargeNew v : Exec σ Unit).Charges := by
  unfold chargeNew
  split
  · exact charges_metered (.memory _)
  · exact charges_metered (.memory _)
  · exact charges_metered (.memory _)
  · exact charges_pure

end Exec

namespace Agreed

variable {r r' : EStateM.Result ContractError (Machine σ) α} {x y : Exec σ α} {m n : Machine σ}

theorem symm (h : Agreed r r') : Agreed r' r := by
  cases h with
  | ok same => exact .ok same.symm
  | failed => exact .failed
  | left stopped => exact .right stopped
  | right stopped => exact .left stopped

/-- Where neither side is `Exhausted`, both come to the same values. -/
theorem finish (h : Agreed (x m) (y n))
    (enough : ∀ e, (x.finish m).1 = .error e → ¬ e.Exhausted)
    (enough' : ∀ e, (y.finish n).1 = .error e → ¬ e.Exhausted) :
    (∀ v, (x.finish m).1 = .ok v ↔ (y.finish n).1 = .ok v) ∧
      ∀ v, (x.finish m).1 = .ok v → (x.finish m).2.Recharged (y.finish n).2 := by
  generalize hx : x m = left at h
  generalize hy : y n = right at h
  cases h with
  | ok same =>
    rw [Exec.finish_of_ok hx, Exec.finish_of_ok hy]
    exact ⟨fun _ => Iff.rfl, fun _ _ => same⟩
  | failed =>
    rw [Exec.finish_of_error hx, Exec.finish_of_error hy]
    exact ⟨fun v => ⟨nofun, nofun⟩, nofun⟩
  | left stopped =>
    rw [Exec.finish_of_error hx] at enough
    exact absurd stopped (enough _ rfl)
  | right stopped =>
    rw [Exec.finish_of_error hy] at enough'
    exact absurd stopped (enough' _ rfl)

theorem bind {f g : α → Exec σ β} (first : Agreed (x m) (y n))
    (rest : ∀ a m' n', x m = .ok a m' → y n = .ok a n' → m'.Recharged n' →
      Agreed (f a m') (g a n')) : Agreed ((x >>= f) m) ((y >>= g) n) := by
  generalize hx : x m = left at first
  generalize hy : y n = right at first
  cases first with
  | ok same =>
    rw [bind_of_ok hx, bind_of_ok hy]
    exact rest _ _ _ hx hy same
  | failed =>
    rw [bind_of_error hx, bind_of_error hy]
    exact .failed
  | left stopped =>
    rw [bind_of_error hx]
    exact .left stopped
  | right stopped =>
    rw [bind_of_error hy]
    exact .right stopped

/-- A step on one side alone that comes to a known value. -/
theorem after {a : α} {f : α → Exec σ β} {r : EStateM.Result ContractError (Machine σ) β}
    (first : Agreed (x m) (.ok a n)) (rest : ∀ next, next.Recharged n → Agreed (f a next) r) :
    Agreed ((x >>= f) m) r := by
  generalize hx : x m = left at first
  cases first with
  | ok same =>
    rw [bind_of_ok hx]
    exact rest _ same
  | left stopped =>
    rw [bind_of_error hx]
    exact .left stopped

/-- What has `Agreed` with a `ScriptFault` fails. -/
theorem exists_error {f : ScriptFault} (h : Agreed r (.error (.script f) n)) :
    ∃ e next, r = .error e next := by
  cases h with
  | failed => exact ⟨_, _, rfl⟩
  | left => exact ⟨_, _, rfl⟩
  | right stopped => exact stopped.elim

theorem charged {c : Exec σ Unit} (hc : c.Charges) {f : Unit → Exec σ α}
    (rest : ∀ next, m.Recharged next → Agreed (f () next) r) : Agreed ((c >>= f) m) r := by
  rcases hc m with ⟨next, ran, same⟩ | ⟨e, next, failed, stopped⟩
  · rw [bind_of_ok ran]
    exact rest next same
  · rw [bind_of_error failed]
    exact .left stopped

theorem closing {close : Machine σ → Machine σ}
    (discharge : ∀ m : Machine σ, m.Recharged (close m)) (h : Agreed (x m) r) :
    Agreed (Exec.closing x close m) r := by
  unfold Exec.closing
  generalize x m = left at h
  cases h with
  | ok same => exact .ok ((discharge _).symm.trans same)
  | failed => exact .failed
  | left stopped => exact .left stopped
  | right stopped => exact .right stopped

theorem nested {entries : Committed} {limits : StateLimits}
    {resolve : ContractId → EStateM ContractError σ Contract}
    (rest : ∀ next, m.Recharged next → Agreed (x next) r) :
    Agreed (Evaluator.nested (.unwatched entries limits resolve) x m) r := by
  unfold Evaluator.nested
  refine .charged (Exec.charges_metered .nesting) fun mid opened => ?_
  rw [bind_of_ok (x := modify _) (a := PUnit.unit) (t := mid) rfl]
  refine .closing (fun m => ⟨m.host.meter.exitNesting, rfl⟩) ?_
  exact .charged (Exec.charges_metered (.steps 1)) fun next stepped =>
    rest next (opened.trans stepped)

end Agreed

theorem Evaluator.Alike.agreed {x y : Evaluator σ} (h : x.Alike y) (p : Program) (e : Expr)
    {m n : Machine σ} (same : m.Recharged n) : Agreed (x.eval p e m) (y.eval p e n) :=
  (h.eval (Regime.admits_lax p) e (fun _ _ => trivial) same).agreed

end LedgerScript
