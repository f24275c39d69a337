import LedgerScript.Proofs.Machine.Bounds
import LedgerScript.Proofs.State.Refusals

/-!
# How a run uses up its budget

Every evaluation counts a step, and steps are compared once in an interval, so
the evaluations that have begun are never more than the ceiling and one interval
of steps (`Meter.Paced`).  No part of a run goes on once a ceiling was found
crossed, and the error that ends it is what the meter shows (`Usage.Shows`).

Loops and levels are bounded in an evaluator.  A run is compared with the run of
an evaluator with other bounds (`Evaluator.bounded`): where the ceiling on steps
can be crossed at all, they are the same, because no bound is ever met.  Main
statement: `Pace.runEntry`.
-/

namespace LedgerScript

open Script (Program Expr Stmt)

variable {σ α β : Type}

/-! ## Meters -/

theorem ContractError.OfAccess.not_overBudget {e : ContractError} (h : e.OfAccess) :
    ¬ e.OverBudget := by
  intro exceeded
  cases e with
  | exhausted resource used limit => cases resource <;> first | exact h | exact exceeded
  | _ => exact exceeded

/-- The ceiling on steps lies below the largest word, so that a counter can get
above it. -/
def Budget.Finite (b : Budget) : Prop := b.maxSteps.toNat < 0xffffffffffffffff

instance (b : Budget) : Decidable b.Finite := inferInstanceAs (Decidable (_ < _))

/-- A `Finite` ceiling and one interval of steps are no more than `maxTurns`: it stops a
loop before its bound does. -/
theorem Budget.Finite.le_maxTurns {b : Budget} (finite : b.Finite) (interval : UInt64) :
    b.maxSteps.toNat + interval.toNat ≤ maxTurns := by
  have word := interval.toNat_lt
  unfold Budget.Finite at finite
  unfold maxTurns
  omega

namespace Usage

/-- Within the ceilings, but for the steps that were not compared yet. -/
structure Near (u : Usage) (b : Budget) (interval : UInt64) : Prop where
  steps : u.steps.toNat ≤ b.maxSteps.toNat + (interval.toNat - 1)
  memory : u.memory ≤ b.maxMemory
  depth : u.depth ≤ b.maxDepth

/-- `b.Shows interval u e`: what a run has used, `u`, when it ends with the error `e`. -/
def Shows (b : Budget) (interval : UInt64) (u : Usage) : ContractError → Prop
  | .exhausted .steps used limit =>
    (limit = b.maxSteps ∧ used = u.steps ∧ limit < used) ∨
      (¬ b.Finite ∧ ContractError.exhausted .steps used limit = Meter.turnsExhausted)
  | .exhausted .memory used limit => limit = b.maxMemory ∧ used = u.memory ∧ limit < used
  | .exhausted .callDepth _ _ => True
  | _ => u.Near b interval

variable {b : Budget} {interval : UInt64} {u : Usage} {e : ContractError}

/-- An error that is not `OverBudget` leaves the usage `Near` its budget. -/
theorem Near.shows (near : u.Near b interval) (other : ¬ e.OverBudget) : u.Shows b interval e := by
  unfold Shows
  split
  · exact absurd trivial other
  · exact absurd trivial other
  · trivial
  · exact near

theorem Shows.near (h : u.Shows b interval e) (other : ¬ e.OverBudget) : u.Near b interval := by
  unfold Shows at h
  split at h
  · exact absurd trivial other
  · exact absurd trivial other
  · exact absurd trivial other
  · exact h

end Usage

namespace Meter

/-- No ceiling was found crossed: the steps were within theirs when they were last
compared, and all else is. -/
structure Uncrossed (b : Budget) (interval : UInt64) (m : Meter) : Prop where
  budget : m.budget = b
  every : m.interval = interval
  early : m.unchecked.toNat < interval.toNat
  steps : m.steps.toNat ≤ b.maxSteps.toNat + m.unchecked.toNat
  memory : m.memory ≤ b.maxMemory
  depth : m.maxDepth ≤ b.maxDepth

/-- No ceiling was found crossed, and `n` evaluations were counted. -/
structure Paced (b : Budget) (interval : UInt64) (n : Nat) (m : Meter) : Prop
    extends m.Uncrossed b interval where
  counted : b.Finite → n ≤ b.maxSteps.toNat + m.unchecked.toNat
  shown : b.Finite → n ≤ m.steps.toNat ∨ m.steps.toNat = 0xffffffffffffffff

variable {b : Budget} {interval : UInt64} {n : Nat} {m : Meter}

theorem uncrossed_new (budget : Budget) (interval : UInt64) :
    (new budget interval).Uncrossed budget (new budget interval).interval where
  budget := rfl
  every := rfl
  early := by
    unfold new
    dsimp only
    split
    · decide
    · rename_i positive
      exact UInt64.lt_iff_toNat_lt.1 (UInt64.pos_iff_ne_zero.2 positive)
  steps := Nat.zero_le _
  memory := UInt64.zero_le
  depth := UInt16.zero_le

theorem paced_new (budget : Budget) (interval : UInt64) :
    (new budget interval).Paced budget (new budget interval).interval 0 :=
  ⟨uncrossed_new budget interval, fun _ => Nat.zero_le _, fun _ => .inl (Nat.zero_le _)⟩

theorem Uncrossed.near (h : m.Uncrossed b interval) : m.usage.Near b interval where
  steps := by
    have early := h.early
    have steps := h.steps
    change m.steps.toNat ≤ _
    omega
  memory := h.memory
  depth := h.depth

/-- A charge of `c` steps pays for as many evaluations. -/
theorem Paced.chargeSteps {c d : Nat} (h : m.Paced b interval n) (paid : d ≤ c) :
    (∃ next, Meter.chargeSteps c m = .ok () next ∧ next.Paced b interval (n + d) ∧
      next.nesting = m.nesting) ∨
    ∃ e next, Meter.chargeSteps c m = .error e next ∧ next.usage.Shows b interval e := by
  obtain rfl := h.budget
  obtain rfl := h.every
  have early := h.early
  have steps := h.steps
  have steps' := toNat_saturate (m.steps.toNat + c)
  have unchecked' := toNat_saturate (m.unchecked.toNat + c)
  have word := m.interval.toNat_lt
  unfold Meter.chargeSteps
  dsimp only
  split
  · rename_i before
    rw [UInt64.lt_iff_toNat_lt] at before
    refine .inl ⟨_, rfl, ⟨⟨h.budget, h.every, before, ?_, h.memory, h.depth⟩,
      fun finite => ?_, fun finite => ?_⟩, rfl⟩
    · dsimp only
      omega
    · have counted := h.counted finite
      dsimp only
      omega
    · have shown := h.shown finite
      dsimp only
      omega
  · split
    · rename_i fits
      rw [UInt64.le_iff_toNat_le] at fits
      have none : (0 : UInt64).toNat = 0 := rfl
      refine .inl ⟨_, rfl, ⟨⟨h.budget, h.every, ?_, ?_, h.memory, h.depth⟩,
        fun finite => ?_, fun finite => ?_⟩, rfl⟩
      · dsimp only
        omega
      · dsimp only
        omega
      · -- a finite ceiling is met before the counter is full, so nothing was lost
        have shown := h.shown finite
        unfold Budget.Finite at finite
        dsimp only
        omega
      · have shown := h.shown finite
        dsimp only
        omega
    · rename_i crossed
      exact .inr ⟨_, _, rfl, .inl ⟨rfl, rfl, UInt64.not_le.1 crossed⟩⟩

theorem Paced.chargeMemory (c : Nat) (h : m.Paced b interval n) :
    (∃ next, Meter.chargeMemory c m = .ok () next ∧ next.Paced b interval n ∧
      next.nesting = m.nesting) ∨
    ∃ e next, Meter.chargeMemory c m = .error e next ∧ next.usage.Shows b interval e := by
  obtain rfl := h.budget
  unfold Meter.chargeMemory
  dsimp only
  split
  · rename_i fits
    exact .inl ⟨_, rfl, ⟨⟨h.budget, h.every, h.early, h.steps, fits, h.depth⟩, h.counted,
      h.shown⟩, rfl⟩
  · rename_i crossed
    exact .inr ⟨_, _, rfl, rfl, rfl, UInt64.not_le.1 crossed⟩

theorem Paced.enterFrame (h : m.Paced b interval n) :
    (∃ next, Meter.enterFrame m = .ok () next ∧ next.Paced b interval n ∧
      next.nesting = m.nesting) ∨
    ∃ e next, Meter.enterFrame m = .error e next ∧ next.usage.Shows b interval e := by
  obtain rfl := h.budget
  rw [enterFrame_eq]
  split
  · rename_i fits
    exact .inl ⟨_, rfl, ⟨⟨h.budget, h.every, h.early, h.steps, h.memory,
      le_max_iff.2 ⟨h.depth, fits⟩⟩, h.counted, h.shown⟩, rfl⟩
  · exact .inr ⟨_, _, rfl, trivial⟩

/-- `depth` and `nesting` are no part of what is `Paced`. -/
theorem Paced.within (h : m.Paced b interval n) (depth : UInt16) (nesting : Nat) :
    { m with depth := depth, nesting := nesting }.Paced b interval n :=
  ⟨⟨h.budget, h.every, h.early, h.steps, h.memory, h.depth⟩, h.counted, h.shown⟩

end Meter

/-! ## Runs -/

/-- What is kept of a run: its budget, and what a watcher has noted after a
number of evaluations. -/
structure Pace (σ : Type) where
  budget : Budget
  interval : UInt64
  kept : Nat → σ → Prop

namespace Pace

/-- The notes of the watcher are kept, and no contract is refused for want of
steps, memory or frames. -/
structure Watches (c : Pace σ) (s : Surroundings σ) : Prop where
  entered : ∀ {n : Nat} (m : Machine σ), m.host.meter.Uncrossed c.budget c.interval →
    c.kept n m.outside → c.kept (n + 1) (Exec.notice s .entered m).outside
  other : ∀ {n : Nat} {event : Event} (m : Machine σ), event ≠ .entered → c.kept n m.outside →
    c.kept n (Exec.notice s event m).outside
  resolve : ∀ {n : Nat} {id : ContractId} {before after : σ}, Ends (s.resolve id) before after →
    c.kept n before → c.kept n after
  found : ∀ {id : ContractId} {before after : σ} {e : ContractError},
    s.resolve id before = .error e after → ¬ e.OverBudget

/-- A run that has not been stopped, after `n` evaluations. -/
structure Fits (c : Pace σ) (n : Nat) (m : Machine σ) : Prop where
  meter : m.host.meter.Paced c.budget c.interval n
  kept : c.kept n m.outside

/-- `c.Stopped e m`: a run has ended with the error `e` in `m`. -/
structure Stopped (c : Pace σ) (e : ContractError) (m : Machine σ) : Prop where
  shows : m.usage.Shows c.budget c.interval e
  kept : ∃ n, c.kept n m.outside ∧
    (c.budget.Finite → n ≤ c.budget.maxSteps.toNat + c.interval.toNat)

/-- From `m`, where `n` evaluations have begun, `x` keeps the pace and begins at
least `gain` more of them before it returns, and `y` does the same as `x`. -/
def From (c : Pace σ) (gain : Nat) (x y : Exec σ α) (m : Machine σ) (n : Nat) : Prop :=
  (c.budget.Finite → y m = x m) ∧
    ((∃ a next later, x m = .ok a next ∧ n + gain ≤ later ∧ c.Fits later next ∧
        next.host.meter.nesting = m.host.meter.nesting) ∨
      ∃ e next, x m = .error e next ∧ c.Stopped e next)

/-- `From gain` at every machine that no ceiling has stopped and that may open no more
than `levels` levels. -/
def Keeps (c : Pace σ) (levels gain : Nat) (x y : Exec σ α) : Prop :=
  ∀ (m : Machine σ) (n : Nat), c.Fits n m → maxNesting ≤ m.host.meter.nesting + levels →
    c.From gain x y m n

variable {c : Pace σ} {levels gain more n : Nat} {m next : Machine σ} {x y : Exec σ α}
  {s : Surroundings σ}

theorem Fits.bound (h : c.Fits n m) :
    c.budget.Finite → n < c.budget.maxSteps.toNat + c.interval.toNat := fun finite =>
  Nat.lt_of_le_of_lt (h.meter.counted finite) (Nat.add_lt_add_left h.meter.early _)

theorem Fits.stopped (h : c.Fits n m) {e : ContractError} (other : ¬ e.OverBudget) :
    c.Stopped e m :=
  ⟨h.meter.near.shows other, n, h.kept, fun finite => Nat.le_of_lt (h.bound finite)⟩

namespace From

theorem of_ok {a : α} {later : Nat} (hx : x m = .ok a next) (hy : y m = x m)
    (gained : n + gain ≤ later) (fits : c.Fits later next)
    (nesting : next.host.meter.nesting = m.host.meter.nesting) : c.From gain x y m n :=
  ⟨fun _ => hy, .inl ⟨a, next, later, hx, gained, fits, nesting⟩⟩

theorem of_error {e : ContractError} (hx : x m = .error e next) (hy : y m = x m)
    (stopped : c.Stopped e next) : c.From gain x y m n :=
  ⟨fun _ => hy, .inr ⟨e, next, hx, stopped⟩⟩

theorem congr {x' y' : Exec σ α} {m' : Machine σ} (h : c.From gain x y m n) (hx : x' m' = x m)
    (hy : y' m' = y m) (level : m'.host.meter.nesting = m.host.meter.nesting) :
    c.From gain x' y' m' n := by
  unfold From
  rw [hx, hy, level]
  exact h

theorem mono (h : c.From more x y m n) (le : gain ≤ more) : c.From gain x y m n := by
  obtain ⟨same, ⟨a, next, later, ran, gained, kept, level⟩ | failed⟩ := h
  · exact ⟨same, .inl ⟨a, next, later, ran, by omega, kept, level⟩⟩
  · exact ⟨same, .inr failed⟩

theorem bind {f g : α → Exec σ β} (h : c.From gain x y m n)
    (hf : ∀ a next later, n + gain ≤ later → c.Fits later next →
      next.host.meter.nesting = m.host.meter.nesting → c.From more (f a) (g a) next later) :
    c.From (gain + more) (x >>= f) (y >>= g) m n := by
  obtain ⟨same, ⟨a, mid, now, ran, gained, fits, nesting⟩ | ⟨e, mid, failed, stopped⟩⟩ := h
  · obtain ⟨same', rest⟩ := hf a mid now gained fits nesting
    refine ⟨fun finite => ?_, ?_⟩
    · rw [bind_of_ok ran, bind_of_ok ((same finite).trans ran)]
      exact same' finite
    · rw [bind_of_ok ran]
      rcases rest with ⟨b, last, later, ran', gained', fits', nesting'⟩ | failed
      · exact .inl ⟨b, last, later, ran', by omega, fits', nesting'.trans nesting⟩
      · exact .inr failed
  · refine ⟨fun finite => ?_, .inr ⟨e, mid, bind_of_error failed, stopped⟩⟩
    rw [bind_of_error failed, bind_of_error ((same finite).trans failed)]

/-- `From` for what is opened, and closed in any case, with changes of which the pace
takes no note. -/
theorem enclosed {x' y' : Exec σ α} {mid : Machine σ} (h : c.From gain x y mid n)
    {close : Machine σ → Machine σ} (hx : x' m = Exec.closing x close mid)
    (hy : y' m = Exec.closing y close mid)
    (fits : ∀ later next, c.Fits later next → c.Fits later (close next))
    (stopped : ∀ e next, c.Stopped e next → c.Stopped e (close next))
    (nesting : ∀ next : Machine σ, next.host.meter.nesting = mid.host.meter.nesting →
      (close next).host.meter.nesting = m.host.meter.nesting) : c.From gain x' y' m n := by
  obtain ⟨same, ⟨a, next, later, ran, gained, kept, level⟩ | ⟨e, next, failed, ended⟩⟩ := h
  · rw [Exec.closing_of_ok ran] at hx
    refine ⟨fun finite => ?_, .inl ⟨a, close next, later, hx, gained, fits later next kept,
      nesting next level⟩⟩
    rw [hx, hy, Exec.closing_of_ok ((same finite).trans ran)]
  · rw [Exec.closing_of_error failed] at hx
    refine ⟨fun finite => ?_, .inr ⟨e, close next, hx, stopped e next ended⟩⟩
    rw [hx, hy, Exec.closing_of_error ((same finite).trans failed)]

/-- A step pays for an evaluation that the watcher has noted already. -/
theorem steps {k : Nat} (meter : m.host.meter.Paced c.budget c.interval n)
    (kept : c.kept (n + gain) m.outside) (paid : gain ≤ k) (one : gain ≤ 1) :
    c.From gain (Exec.metered (Meter.chargeSteps k)) (Exec.metered (Meter.chargeSteps k)) m n := by
  rcases meter.chargeSteps paid with ⟨next, charged, paced, same⟩ | ⟨e, next, failed, shows⟩
  · exact .of_ok (Exec.metered_of_ok charged) rfl (Nat.le_refl _) ⟨paced, kept⟩ same
  · refine .of_error (Exec.metered_of_error failed) rfl ⟨shows, n + gain, kept, fun finite => ?_⟩
    have counted := meter.counted finite
    have early := meter.early
    omega

end From

namespace Keeps

theorem mono (h : c.Keeps levels more x y) (le : gain ≤ more) : c.Keeps levels gain x y :=
  fun m n fits room => (h m n fits room).mono le

theorem pure (a : α) : c.Keeps levels 0 (pure a) (pure a) :=
  fun _ n fits _ => .of_ok rfl rfl (Nat.le_refl n) fits rfl

theorem throw {e : ContractError} (other : ¬ e.OverBudget) :
    c.Keeps levels gain (throw e : Exec σ α) (throw e) :=
  fun _ _ fits _ => .of_error rfl rfl (fits.stopped other)

theorem bind {f g : α → Exec σ β} (hx : c.Keeps levels 0 x y)
    (hf : ∀ a, c.Keeps levels 0 (f a) (g a)) : c.Keeps levels 0 (x >>= f) (y >>= g) :=
  fun m n fits room => (hx m n fits room).bind fun a next later _ kept level =>
    hf a next later kept (by rw [level]; exact room)

/-- `Keeps` for a change that leaves the meter and the notes alone. -/
theorem change {f : Machine σ → Machine σ} (meter : ∀ m, (f m).host.meter = m.host.meter)
    (kept : ∀ m n, c.kept n m.outside → c.kept n (f m).outside) :
    c.Keeps levels 0 (modify f : Exec σ PUnit) (modify f) := by
  intro m n fits _
  have ran : (modify f : Exec σ PUnit) m = .ok PUnit.unit (f m) := rfl
  refine .of_ok ran rfl (Nat.le_refl n) ⟨?_, kept m n fits.kept⟩ ?_
  · rw [meter]
    exact fits.meter
  · rw [meter]

theorem steps (k : Nat) :
    c.Keeps levels 0 (Exec.metered (Meter.chargeSteps k)) (Exec.metered (Meter.chargeSteps k)) :=
  fun _ _ fits _ => .steps fits.meter fits.kept (Nat.zero_le _) (Nat.zero_le _)

theorem memory (k : Nat) :
    c.Keeps levels 0 (Exec.metered (Meter.chargeMemory k))
      (Exec.metered (Meter.chargeMemory k)) := by
  intro m n fits _
  rcases fits.meter.chargeMemory k with ⟨next, charged, paced, same⟩ | ⟨e, next, failed, shows⟩
  · exact .of_ok (Exec.metered_of_ok charged) rfl (Nat.le_refl n) ⟨paced, fits.kept⟩ same
  · exact .of_error (Exec.metered_of_error failed) rfl
      ⟨shows, n, fits.kept, fun finite => Nat.le_of_lt (fits.bound finite)⟩

theorem chargeNew (v : Value) : c.Keeps levels 0 (Exec.chargeNew v) (Exec.chargeNew v) := by
  unfold Exec.chargeNew
  split
  · exact memory _
  · exact memory _
  · exact memory _
  · exact pure ()

theorem lookup (name : String) : c.Keeps levels 0 (Exec.lookup name) (Exec.lookup name) := by
  intro m n fits _
  cases found : m.vars.find? name with
  | some slot => exact .of_ok (Exec.lookup_of_some found) rfl (Nat.le_refl n) fits rfl
  | none => exact .of_error (Exec.lookup_of_none found) rfl (fits.stopped id)

theorem vars (f : Variables → Variables) : c.Keeps levels 0 (Exec.vars f) (Exec.vars f) :=
  change (fun _ => rfl) fun _ _ kept => kept

theorem written (name : String) (held : Value) (x : Value.Change) :
    c.Keeps levels 0 (Exec.change name held x) (Exec.change name held x) := by
  intro m n fits _
  cases changed : x held with
  | ok _ v =>
    have fits' : c.Fits n { m with vars := m.vars.update name v } := ⟨fits.meter, fits.kept⟩
    exact .of_ok (Exec.change_of_ok changed name) rfl (Nat.le_refl n) fits' rfl
  | error f v =>
    have fits' : c.Fits n { m with vars := m.vars.update name v } := ⟨fits.meter, fits.kept⟩
    exact .of_error (Exec.change_of_error changed name) rfl (fits'.stopped id)

theorem store (root : String) (keys : List PathKey) (v : Value) :
    c.Keeps levels 0 (Evaluator.store root keys v) (Evaluator.store root keys v) := by
  refine bind (lookup root) fun slot => ?_
  split
  · exact throw (e := .script _) id
  · exact written root slot.value _

theorem withContext {f g : Context → Exec σ α}
    (hfg : ∀ context, c.Keeps levels 0 (f context) (g context)) :
    c.Keeps levels 0 (Exec.withContext f) (Exec.withContext g) := by
  intro m n fits room
  cases running : m.host.current? with
  | none =>
    have missing := fun f : Context → Exec σ α => Exec.withContext_of_none running f
    exact .of_error (missing f) ((missing g).trans (missing f).symm) (fits.stopped id)
  | some context =>
    exact (hfg context m n fits room).congr (Exec.withContext_of_some running f)
      (Exec.withContext_of_some running g) rfl

theorem viewing {x : Viewing α} (hx : x.Refuses) :
    c.Keeps levels 0 (Exec.viewing x) (Exec.viewing x) := by
  intro m n fits _
  cases accessed : x m.host.view with
  | ok a view =>
    have fits' : c.Fits n (m.withView view) := ⟨fits.meter, fits.kept⟩
    exact .of_ok (Exec.viewing_of_ok accessed) rfl (Nat.le_refl n) fits' rfl
  | error e view =>
    have fits' : c.Fits n (m.withView view) := ⟨fits.meter, fits.kept⟩
    exact .of_error (Exec.viewing_of_error accessed) rfl
      (fits'.stopped (hx accessed).not_overBudget)

theorem inScope (h : c.Keeps levels 0 x y) :
    c.Keeps levels 0 (Exec.inScope x) (Exec.inScope y) := by
  intro m n fits room
  have opened : c.Fits n { m with vars := m.vars.pushScope } := ⟨fits.meter, fits.kept⟩
  exact (h _ n opened room).enclosed rfl rfl (fun _ _ fits => ⟨fits.meter, fits.kept⟩)
    (fun _ _ stopped => ⟨stopped.shows, stopped.kept⟩) fun _ level => level

theorem inFrame (scope : Scope) (h : c.Keeps levels 0 x y) :
    c.Keeps levels 0 (Exec.inFrame scope x) (Exec.inFrame scope y) := by
  intro m n fits room
  rcases fits.meter.enterFrame with ⟨meter, opening, paced, same⟩ | ⟨e, meter, failed, shows⟩
  · have opened : c.Fits n { m.withMeter meter with vars := m.vars.pushFrame scope } :=
      ⟨paced, fits.kept⟩
    have entered : ∀ z : Exec σ α, Exec.inFrame scope z m = Exec.closing z _ _ := fun z =>
      bind_of_ok (Exec.metered_of_ok opening)
    refine (h _ n opened ?_).enclosed (entered x) (entered y)
      (fun _ _ fits => ⟨fits.meter.within _ _, fits.kept⟩)
      (fun _ _ stopped => ⟨stopped.shows, stopped.kept⟩) fun _ level => level.trans same
    exact same ▸ room
  · have failed' : ∀ z : Exec σ α, Exec.inFrame scope z m = .error e (m.withMeter meter) :=
      fun z => bind_of_error (Exec.metered_of_error failed)
    exact .of_error (failed' x) ((failed' y).trans (failed' x).symm)
      ⟨shows, n, fits.kept, fun finite => Nat.le_of_lt (fits.bound finite)⟩

/-- `nested` counts one evaluation and opens the level that its body runs on. -/
theorem nested (h : c.Watches s) (hx : c.Keeps levels 0 x y) :
    c.Keeps (levels + 1) 1 (Evaluator.nested s x) (Evaluator.nested s y) := by
  intro m n fits room
  by_cases free : m.host.meter.nesting < maxNesting
  · let opened := m.withMeter { m.host.meter with nesting := m.host.meter.nesting + 1 }
    let mid := Exec.notice s .entered opened
    have paced : mid.host.meter.Paced c.budget c.interval n := fits.meter.within _ _
    have kept : c.kept (n + 1) mid.outside := h.entered opened paced.toUncrossed fits.kept
    have stepped : c.From (1 + 0) (Exec.step >>= fun _ => x) (Exec.step >>= fun _ => y) mid n :=
      (From.steps paced kept (Nat.le_refl 1) (Nat.le_refl 1)).bind
        fun _ next later _ fits level => hx next later fits (by
          rw [level]
          change maxNesting ≤ m.host.meter.nesting + 1 + levels
          omega)
    have entered : ∀ z : Exec σ α, Evaluator.nested s z m =
        Exec.closing (Exec.step >>= fun _ => z) _ mid := fun z =>
      bind_of_ok (Exec.metered_of_ok (if_pos free))
    refine stepped.enclosed (entered x) (entered y)
      (fun _ _ fits => ⟨fits.meter.within _ _, h.other _ Event.noConfusion fits.kept⟩)
      (fun _ _ stopped => ⟨stopped.shows, ?_⟩) fun next level => ?_
    · obtain ⟨n, kept, bound⟩ := stopped.kept
      exact ⟨n, h.other _ Event.noConfusion kept, bound⟩
    · change next.host.meter.nesting - 1 = m.host.meter.nesting
      rw [level]
      exact Nat.add_sub_cancel ..
  · have failed : ∀ z : Exec σ α, Evaluator.nested s z m = .error Meter.nestingExhausted m :=
      fun z => bind_of_error (Exec.metered_of_error (if_neg free))
    exact .of_error (failed x) ((failed y).trans (failed x).symm) (fits.stopped id)

/-! ### Nested calls -/

theorem outside (h : c.Watches s) (id : ContractId) :
    c.Keeps levels 0 (Exec.outside (s.resolve id)) (Exec.outside (s.resolve id)) := by
  intro m n fits _
  cases found : s.resolve id m.outside with
  | error e outside =>
    have fits' : c.Fits n (m.withOutside outside) :=
      ⟨fits.meter, h.resolve (.inr ⟨e, found⟩) fits.kept⟩
    exact .of_error (Exec.outside_of_error found) rfl (fits'.stopped (h.found found))
  | ok contract outside =>
    have fits' : c.Fits n (m.withOutside outside) :=
      ⟨fits.meter, h.resolve (.inl ⟨contract, found⟩) fits.kept⟩
    exact .of_ok (Exec.outside_of_ok found) rfl (Nat.le_refl n) fits' rfl

section Calls

variable {u v : Evaluator σ} (h : c.Watches s)
  (huv : ∀ p name args, c.Keeps levels 0 (u.run p name args) (v.run p name args))

include h huv

theorem enter (contract : Contract) (child : Context) :
    c.Keeps levels 0 (u.enter s contract child) (v.enter s contract child) := by
  intro m n fits room
  have entering : c.Fits n (m.entering s child) :=
    ⟨fits.meter, h.other { m with vars := {}, host := m.host.entering child } Event.noConfusion
      fits.kept⟩
  obtain ⟨same, ⟨w, next, later, ran, gained, kept, level⟩ | ⟨e, next, failed, stopped⟩⟩ :=
    huv contract.program EntryPoint.invoke.name child.entryArgs _ n entering room
  · have back : c.Fits later (m.resume s child w.truthy next) := by
      have different : Event.returned child.contract w.truthy ≠ .entered := Event.noConfusion
      have noted := h.other (m.leaving next) different kept.kept
      unfold Machine.resume
      cases truthy : w.truthy <;> rw [truthy] at noted <;> exact ⟨kept.meter, noted⟩
    have level' : (m.resume s child w.truthy next).host.meter.nesting =
        next.host.meter.nesting := by
      unfold Machine.resume
      cases w.truthy <;> rfl
    refine ⟨fun finite => ?_, .inl ⟨w, _, later, Evaluator.enter_of_ok ran, gained, back,
      level'.trans level⟩⟩
    rw [Evaluator.enter_of_ok ran, Evaluator.enter_of_ok ((same finite).trans ran)]
  · refine ⟨fun finite => ?_, .inr ⟨e, _, Evaluator.enter_of_error failed,
      ⟨stopped.shows, stopped.kept⟩⟩⟩
    rw [Evaluator.enter_of_error failed, Evaluator.enter_of_error ((same finite).trans failed)]

theorem callFound (callee : ContractId) (child? : Option Context) :
    c.Keeps levels 0 (u.callFound s callee child?) (v.callFound s callee child?) := by
  rw [Evaluator.callFound_eq, Evaluator.callFound_eq]
  refine bind (outside h callee) fun contract => ?_
  split
  · cases child? with
    | none => exact throw (e := Exec.noContext) id
    | some child => exact enter h huv contract child
  · exact throw (e := .missingEntryPoint .invoke) id

theorem callContract (target method : String) (args : Value) :
    c.Keeps levels 0 (u.callContract s target method args)
      (v.callContract s target method args) := by
  intro m n fits room
  have called := fun z : Evaluator σ => z.callContract_eq s target method args m
  cases named : ContractId.ofHex target with
  | error f =>
    rw [named] at called
    exact .of_error (called u) ((called v).trans (called u).symm)
      (fits.stopped (e := .script _) id)
  | ok callee =>
    rw [named] at called
    dsimp only at called
    by_cases again : m.host.contexts.any (·.contract = callee) = true
    · have failed := fun z => (called z).trans (if_pos again)
      exact .of_error (failed u) ((failed v).trans (failed u).symm)
        (fits.stopped (e := .script _) id)
    · have found := fun z => (called z).trans (if_neg again)
      exact (callFound h huv _ _ m n fits room).congr (found u) (found v) rfl

end Calls

end Keeps

/-! ### Loops -/

/-- Every turn of a loop begins an evaluation, so there are fewer turns than
evaluations, and the ceiling on steps bounds both. -/
theorem From.turn {u v : Evaluator σ} {p : Program} {condition : Expr} {body : List Stmt}
    (tests : c.Keeps levels 1 (u.eval p condition) (v.eval p condition))
    (turns : c.Keeps levels 0 (u.execBlock p body) (v.execBlock p body)) (k l : Nat)
    (fits : c.Fits n m) (room : maxNesting ≤ m.host.meter.nesting + levels)
    (hk : c.budget.Finite → c.budget.maxSteps.toNat + c.interval.toNat ≤ n + k)
    (hl : c.budget.Finite → c.budget.maxSteps.toNat + c.interval.toNat ≤ n + l) :
    c.From 0 (u.turn p condition body k) (v.turn p condition body l) m n := by
  induction k generalizing l m n with
  | zero =>
    have endless : ¬ c.budget.Finite := fun finite => by
      have few := fits.bound finite
      have many := hk finite
      omega
    exact ⟨fun finite => absurd finite endless, .inr ⟨_, _, rfl,
      ⟨.inr ⟨endless, rfl⟩, n, fits.kept, fun finite => absurd finite endless⟩⟩⟩
  | succ k ih =>
    have turned : ∀ l, (c.budget.Finite →
        c.budget.maxSteps.toNat + c.interval.toNat ≤ n + (l + 1)) →
        c.From (1 + 0) (u.turn p condition body (k + 1)) (v.turn p condition body (l + 1)) m n := by
      intro l hl
      refine (tests m n fits room).bind fun test mid now gained fits level => ?_
      have room' : maxNesting ≤ mid.host.meter.nesting + levels := level ▸ room
      split
      · change c.From (0 + 0) _ _ _ _
        refine (turns mid now fits room').bind fun flow last later gained' fits level' => ?_
        have again : c.From 0 (u.turn p condition body k) (v.turn p condition body l) last later :=
          ih l fits (level' ▸ room') (fun finite => by have := hk finite; omega)
            fun finite => by have := hl finite; omega
        cases flow with
        | onward => exact again
        | again => exact again
        | leave => exact Keeps.pure Flow.onward last later fits (level' ▸ room')
        | result w => exact Keeps.pure (Flow.result w) last later fits (level' ▸ room')
      · exact Keeps.pure Flow.onward mid now fits room'
    cases l with
    | succ l => exact (turned l hl).mono (Nat.zero_le _)
    | zero =>
      -- without turns the other loop stops at once, which matters only to a finite budget
      have endless : ¬ c.budget.Finite := fun finite => by
        have few := fits.bound finite
        have many := hl finite
        omega
      have own := (turned 0 fun finite => absurd finite endless).mono (Nat.zero_le _)
      exact ⟨fun finite => absurd finite endless, own.2⟩

/-! ### All runs -/

/-- All that bodies are put together from `Keeps` the pace. -/
theorem bodies (h : c.Watches s) :
    ParametricBodies .lax s s fun _ _ _ _ x y => c.Keeps levels 0 x y where
  null := trivial
  bool _ := trivial
  int _ := trivial
  part _ _ := trivial
  making := Regime.making_of_forall fun _ => trivial
  pure _ _ _ _ a _ := .pure a
  bind hx hf := hx.bind fun a => hf a (Regime.each_lax a)
  widen := id
  fault _ _ _ _ := .throw (e := .script _) id
  missing _ _ := .throw (e := .missingEntryPoint _) id
  steps _ n := .steps n
  made _ v _ := (Keeps.chargeNew v).bind fun _ => .pure v
  lookup _ := .lookup
  declareGlobal _ _ _ _ := .vars _
  declare _ _ _ _ := .vars _
  store root keys v _ _ := .store root keys v
  inScope := .inScope
  inFrame _ _ _ _ _ hx := .inFrame _ hx
  builtin _ _ _ := .change (fun _ => rfl) fun _ _ => h.other _ Event.noConfusion
  hosted _ _ _ := .change (fun _ => rfl) fun _ _ => h.other _ Event.noConfusion
  memory n _ := .memory n
  getState key _ := .withContext fun own => .viewing (.get s.entries s.limits own.space key)
  putState key v _ _ := .withContext fun own => .viewing (.set s.limits own.space key v)
  delState key _ := .withContext fun own => .viewing (.delete s.limits own.space key)
  told _ _ _ := .withContext fun _ => .pure _
  logLine _ _ := .withContext fun _ => .change (fun _ => rfl) fun _ _ kept => kept

/-- Evaluation on a number of levels begins one evaluation at least, and goes on
alike under other bounds. -/
structure Levelled (c : Pace σ) (levels : Nat) (u v : Evaluator σ) : Prop where
  eval : ∀ p e, c.Keeps levels 1 (u.eval p e) (v.eval p e)
  exec : ∀ p stmt, c.Keeps levels 1 (u.exec p stmt) (v.exec p stmt)

theorem Levelled.related {u v : Evaluator σ} (h : c.Levelled levels u v) :
    Evaluator.RelatedOn .lax (fun _ _ _ _ x y => c.Keeps levels 0 x y) u v where
  eval _ e _ := (h.eval _ e).mono (Nat.zero_le _)
  exec _ stmt _ := (h.exec _ stmt).mono (Nat.zero_le _)

/-- Where no level is left to the meter, other levels are of no use. -/
theorem Keeps.ground {u v : Exec σ α}
    (hu : ∀ m : Machine σ, maxNesting ≤ m.host.meter.nesting →
      u m = .error Meter.nestingExhausted m)
    (hv : ∀ m : Machine σ, maxNesting ≤ m.host.meter.nesting →
      v m = .error Meter.nestingExhausted m) : c.Keeps 0 gain u v :=
  fun m _ fits room => .of_error (hu m room) ((hv m room).trans (hu m room).symm) (fits.stopped id)

theorem nested_of_full {z : Exec σ α} (full : maxNesting ≤ m.host.meter.nesting) :
    Evaluator.nested s z m = .error Meter.nestingExhausted m :=
  bind_of_error (Exec.metered_of_error (if_neg (Nat.not_lt.2 full)))

/-- The steps that a `Finite` budget allows for are fewer than `turns`. -/
def Allows (c : Pace σ) (turns : Nat) : Prop :=
  c.budget.Finite → c.budget.maxSteps.toNat + c.interval.toNat ≤ turns

variable {turns turns' : Nat} (ht : c.Allows turns) (ht' : c.Allows turns')

include ht ht'

/-- Evaluations under two bounds are `Levelled`.  The induction is on the levels: what a
level does on top of the level below is the body of an evaluation. -/
theorem levelled (h : c.Watches s) (levels extra : Nat) :
    c.Levelled levels (Evaluator.bounded turns s levels)
      (Evaluator.bounded turns' s (levels + extra)) := by
  induction levels with
  | zero =>
    cases extra with
    | zero =>
      have ground : c.Levelled 0 (Evaluator.ground (σ := σ)) Evaluator.ground :=
        ⟨fun _ _ => .ground (fun _ _ => rfl) fun _ _ => rfl,
          fun _ _ => .ground (fun _ _ => rfl) fun _ _ => rfl⟩
      exact ground
    | succ extra =>
      rw [Nat.zero_add]
      exact ⟨fun _ _ => .ground (fun _ _ => rfl) fun _ full => nested_of_full full,
        fun _ _ => .ground (fun _ _ => rfl) fun _ full => nested_of_full full⟩
  | succ levels below =>
    have related := below.related
    have admitted := Regime.admits_lax
    have calls : Evaluator.CallsRelatedOn .lax s s (fun _ _ _ _ x y => c.Keeps levels 0 x y) _ _ :=
      fun _ target method args _ => Keeps.callContract h (fun p name args =>
        (bodies h).run related (admitted p) name args (Regime.each_lax args)) target method args
    rw [Nat.succ_add]
    refine ⟨fun p e => ((bodies h).evalBody related (admitted p) calls e fun _ _ =>
      trivial).nested h, fun p stmt => Keeps.nested h ?_⟩
    by_cases looping : ∃ condition body, stmt = .loop condition body
    · obtain ⟨condition, body, rfl⟩ := looping
      have block := (bodies h).execBlock related (admitted p) body fun _ _ => trivial
      exact fun m n fits room => From.turn (below.eval p condition) block turns turns' fits room
        (fun finite => Nat.le_add_left_of_le (ht finite))
        fun finite => Nat.le_add_left_of_le (ht' finite)
    · have other : ∀ condition body, stmt ≠ .loop condition body :=
        fun condition body loop => looping ⟨condition, body, loop⟩
      rw [Evaluator.execBounded_of_ne other, Evaluator.execBounded_of_ne other]
      exact (bodies h).execBody related (admitted p) stmt (fun _ _ => trivial)
        fun condition body loop => absurd loop (other condition body)

theorem runEntry (h : c.Watches s) (contract : Contract) (context : Context) (extra : Nat) :
    c.Keeps maxNesting 0 (runEntryBounded turns maxNesting s contract context)
      (runEntryBounded turns' (maxNesting + extra) s contract context) := by
  unfold runEntryBounded
  split
  · exact (bodies h).run (levelled ht ht' h maxNesting extra).related
      (Regime.admits_lax _) _ _ (Regime.each_lax _)
  · exact (bodies h).missing contract.program context.entryPoint

end Pace

end LedgerScript
