import LedgerScript.Proofs.Machine.NestedCall
import LedgerScript.Proofs.Machine.Parametricity

/-!
# What a run shows of its budget

A run is compared with the run of the same contract under another budget and
interval (`Machine.under`).  Nothing that a run does depends on its budget,
except that a ceiling may stop it (`Exec.Transparent`), so what it reports as
used is the least budget that it can do with.  Main statement:
`execute_usage_least`.
-/

namespace LedgerScript

variable {σ α β γ : Type}

/-! ## Usage -/

namespace Usage

/-- No counter is above that of the other usage. -/
structure Le (a b : Usage) : Prop where
  steps : a.steps ≤ b.steps
  memory : a.memory ≤ b.memory
  depth : a.depth ≤ b.depth

/-- No counter is above its ceiling. -/
structure Within (u : Usage) (b : Budget) : Prop where
  steps : u.steps ≤ b.maxSteps
  memory : u.memory ≤ b.maxMemory
  depth : u.depth ≤ b.maxDepth

instance (u : Usage) (b : Budget) : Decidable (u.Within b) :=
  decidable_of_iff (u.steps ≤ b.maxSteps ∧ u.memory ≤ b.maxMemory ∧ u.depth ≤ b.maxDepth)
    ⟨fun h => ⟨h.1, h.2.1, h.2.2⟩, fun h => ⟨h.steps, h.memory, h.depth⟩⟩

theorem Le.refl (u : Usage) : u.Le u :=
  ⟨UInt64.le_refl _, UInt64.le_refl _, UInt16.le_refl _⟩

theorem Le.trans {a b c : Usage} (hab : a.Le b) (hbc : b.Le c) : a.Le c :=
  ⟨UInt64.le_trans hab.steps hbc.steps, UInt64.le_trans hab.memory hbc.memory,
    UInt16.le_trans hab.depth hbc.depth⟩

theorem Within.mono {a b : Usage} {budget : Budget} (h : b.Within budget) (le : a.Le b) :
    a.Within budget :=
  ⟨UInt64.le_trans le.steps h.steps, UInt64.le_trans le.memory h.memory,
    UInt16.le_trans le.depth h.depth⟩

end Usage

/-- An `exhausted` error of a ceiling that a budget sets: steps, memory or frames. -/
def ContractError.OverBudget : ContractError → Prop
  | .exhausted .steps _ _ | .exhausted .memory _ _ | .exhausted .callDepth _ _ => True
  | _ => False

/-! ## Charges under another budget -/

namespace Meter

/-- The meter under another budget and interval, with another number of steps
since the last comparison. -/
def under (m : Meter) (budget : Budget) (interval unchecked : UInt64) : Meter :=
  { m with budget := budget, interval := interval, unchecked := unchecked }

/-- `x` moves the counters to those of `next`, or finds that they are above a
ceiling. -/
structure Charges (x : Metered Unit) (next : Meter → Meter) : Prop where
  grows : ∀ m : Meter, m.usage.Le (next m).usage
  under : ∀ (m : Meter) (budget : Budget) (interval unchecked : UInt64),
    next (m.under budget interval unchecked) = (next m).under budget interval unchecked
  cases : ∀ m : Meter,
    (∃ unchecked, x m = .ok () ((next m).under m.budget m.interval unchecked)) ∨
      ∃ e stopped, x m = .error e stopped ∧ e.OverBudget ∧ m.usage.Le stopped.usage ∧
        ¬ (next m).usage.Within m.budget
  /-- With `interval` 1 every ceiling is compared at once. -/
  prompt : ∀ {m after : Meter}, m.interval = 1 → m.usage.Within m.budget → x m = .ok () after →
    after.usage.Within m.budget

theorem le_saturate (n : UInt64) (more : Nat) : n ≤ saturate (n.toNat + more) := by
  have small := n.toNat_lt
  rw [UInt64.le_iff_toNat_le, toNat_saturate]
  omega

theorem charges_chargeSteps (n : Nat) :
    Charges (chargeSteps n) fun m => { m with steps := saturate (m.steps.toNat + n) } where
  grows m := ⟨le_saturate m.steps n, UInt64.le_refl _, UInt16.le_refl _⟩
  under _ _ _ _ := rfl
  cases m := by
    unfold chargeSteps
    dsimp only
    split
    · exact .inl ⟨_, rfl⟩
    · split
      · exact .inl ⟨_, rfl⟩
      · rename_i crossed
        refine .inr ⟨_, _, rfl, trivial, ?_, fun within => crossed within.steps⟩
        exact ⟨le_saturate m.steps n, UInt64.le_refl _, UInt16.le_refl _⟩
  prompt {m after} one within charged := by
    unfold chargeSteps at charged
    dsimp only at charged
    split at charged
    · rename_i early
      cases charged
      -- nothing is left for a later comparison, so nothing was charged
      have none : n = 0 := by
        rw [one, UInt64.lt_iff_toNat_lt, toNat_saturate] at early
        simp at early
        omega
      have same : saturate (m.steps.toNat + n) ≤ m.steps := by
        have small := m.steps.toNat_lt
        rw [UInt64.le_iff_toNat_le, toNat_saturate, none]
        omega
      exact ⟨UInt64.le_trans same within.steps, within.memory, within.depth⟩
    · split at charged
      · rename_i fits
        cases charged
        exact ⟨fits, within.memory, within.depth⟩
      · cases charged

theorem charges_chargeMemory (n : Nat) :
    Charges (chargeMemory n) fun m => { m with memory := saturate (m.memory.toNat + n) } where
  grows m := ⟨UInt64.le_refl _, le_saturate m.memory n, UInt16.le_refl _⟩
  under _ _ _ _ := rfl
  cases m := by
    unfold chargeMemory
    dsimp only
    split
    · exact .inl ⟨m.unchecked, rfl⟩
    · rename_i crossed
      refine .inr ⟨_, _, rfl, trivial, ?_, fun within => crossed within.memory⟩
      exact ⟨UInt64.le_refl _, le_saturate m.memory n, UInt16.le_refl _⟩
  prompt one within charged := by
    unfold chargeMemory at charged
    dsimp only at charged
    split at charged
    · rename_i fits
      cases charged
      exact ⟨within.steps, fits, within.depth⟩
    · cases charged

theorem le_max_iff {a b c : UInt16} : max a b ≤ c ↔ a ≤ c ∧ b ≤ c := by
  change (if a ≤ b then b else a) ≤ c ↔ a ≤ c ∧ b ≤ c
  simp only [UInt16.le_iff_toNat_le]
  split <;> omega

theorem charges_enterFrame :
    Charges enterFrame
      fun m => { m with depth := m.deeper, maxDepth := max m.maxDepth m.deeper } where
  grows m := ⟨UInt64.le_refl _, UInt64.le_refl _, (le_max_iff.1 (UInt16.le_refl _)).1⟩
  under _ _ _ _ := rfl
  cases m := by
    rw [enterFrame_eq]
    split
    · exact .inl ⟨m.unchecked, rfl⟩
    · rename_i crossed
      refine .inr ⟨_, _, rfl, trivial, .refl _, fun within => crossed ?_⟩
      exact (le_max_iff.1 within.depth).2
  prompt one within charged := by
    rw [enterFrame_eq] at charged
    split at charged
    · rename_i fits
      cases charged
      exact ⟨within.steps, within.memory, le_max_iff.2 ⟨within.depth, fits⟩⟩
    · cases charged

end Meter

/-! ## Runs under another budget -/

namespace Machine

def usage (m : Machine σ) : Usage := m.host.meter.usage

/-- The machine under another budget and interval. -/
def under (m : Machine σ) (budget : Budget) (interval unchecked : UInt64) : Machine σ :=
  m.withMeter (m.host.meter.under budget interval unchecked)

end Machine

namespace Exec

abbrev Ending (σ α : Type) := EStateM.Result ContractError (Machine σ) α

def Ending.machine : Ending σ α → Machine σ
  | .ok _ m | .error _ m => m

/-- No ceiling of the budget has stopped the run. -/
def Ending.Spared : Ending σ α → Prop
  | .ok _ _ => True
  | .error e _ => ¬ e.OverBudget

/-- A ceiling of the budget has stopped the run. -/
def Ending.Stopped (r : Ending σ α) : Prop := ∃ e m, r = .error e m ∧ e.OverBudget

def Ending.under (r : Ending σ α) (budget : Budget) (interval unchecked : UInt64) : Ending σ α :=
  match r with
  | .ok a m => .ok a (m.under budget interval unchecked)
  | .error e m => .error e (m.under budget interval unchecked)

/-- A run that is `Spared` goes the same under every budget that is enough for what it has
used, and is `Stopped` under every other one. -/
structure Transparent (x : Exec σ α) : Prop where
  grows : ∀ m : Machine σ, m.usage.Le (Ending.machine (x m)).usage
  enough : ∀ (m : Machine σ) (budget : Budget) (interval unchecked : UInt64),
    Ending.Spared (x m) → (Ending.machine (x m)).usage.Within budget →
      ∃ later, x (m.under budget interval unchecked) = Ending.under (x m) budget interval later
  scarce : ∀ (m : Machine σ) (budget : Budget) (unchecked : UInt64),
    Ending.Spared (x m) → m.usage.Within budget → ¬ (Ending.machine (x m)).usage.Within budget →
      Ending.Stopped (x (m.under budget 1 unchecked))

namespace Transparent

/-- What looks neither at the budget nor at the counters is `Transparent`. -/
theorem steady {x : Exec σ α} (same : ∀ m, (Ending.machine (x m)).usage = m.usage)
    (blind : ∀ m budget interval unchecked,
      x (m.under budget interval unchecked) = Ending.under (x m) budget interval unchecked) :
    Transparent x where
  grows m := by
    rw [same]
    exact .refl _
  enough m budget interval unchecked _ _ := ⟨unchecked, blind m budget interval unchecked⟩
  scarce m budget unchecked _ within scarce := by
    rw [same] at scarce
    exact absurd within scarce

theorem pure (a : α) : Transparent (pure a : Exec σ α) :=
  steady (fun _ => rfl) fun _ _ _ _ => rfl

theorem throw (e : ContractError) : Transparent (throw e : Exec σ α) :=
  steady (fun _ => rfl) fun _ _ _ _ => rfl

theorem vars (f : Variables → Variables) : Transparent (Exec.vars f : Exec σ Unit) :=
  steady (fun _ => rfl) fun _ _ _ _ => rfl

theorem bind {x : Exec σ α} {f : α → Exec σ β} (hx : Transparent x)
    (hf : ∀ a, Transparent (f a)) : Transparent (x >>= f) where
  grows m := by
    have first := hx.grows m
    cases hm : x m with
    | error e next =>
      rw [hm] at first
      rw [bind_of_error hm]
      exact first
    | ok a mid =>
      rw [hm] at first
      rw [bind_of_ok hm]
      exact first.trans ((hf a).grows mid)
  enough m budget interval unchecked spared within := by
    have first := hx.enough m budget interval unchecked
    cases hm : x m with
    | error e next =>
      rw [hm] at first
      rw [bind_of_error hm] at spared within ⊢
      obtain ⟨later, same⟩ := first spared within
      exact ⟨later, bind_of_error same⟩
    | ok a mid =>
      rw [hm] at first
      rw [bind_of_ok hm] at spared within ⊢
      -- the counters only rise, so what is enough in the end is enough now
      obtain ⟨now, same⟩ := first trivial (within.mono ((hf a).grows mid))
      obtain ⟨later, rest⟩ := (hf a).enough mid budget interval now spared within
      exact ⟨later, (bind_of_ok same).trans rest⟩
  scarce m budget unchecked spared begun scarce := by
    have first := hx.enough m budget 1 unchecked
    have stopped := hx.scarce m budget unchecked
    cases hm : x m with
    | error e next =>
      rw [hm] at stopped
      rw [bind_of_error hm] at spared scarce
      obtain ⟨f, last, failed, crossed⟩ := stopped spared begun scarce
      exact ⟨f, last, bind_of_error failed, crossed⟩
    | ok a mid =>
      rw [hm] at first stopped
      rw [bind_of_ok hm] at spared scarce
      by_cases within : mid.usage.Within budget
      · obtain ⟨now, same⟩ := first trivial within
        obtain ⟨f, last, failed, crossed⟩ := (hf a).scarce mid budget now spared within scarce
        exact ⟨f, last, (bind_of_ok same).trans failed, crossed⟩
      · obtain ⟨f, last, failed, crossed⟩ := stopped trivial begun within
        exact ⟨f, last, bind_of_error failed, crossed⟩

/-- A change of a machine, which may go by what another machine `m` held
before, that leaves the meter alone. -/
structure Blind (f : Machine σ → Machine σ → Machine σ) : Prop where
  usage : ∀ m n : Machine σ, (f m n).usage = n.usage
  under : ∀ (m n : Machine σ) (budget : Budget) (interval now later : UInt64),
    f (m.under budget interval now) (n.under budget interval later) =
      (f m n).under budget interval later

theorem Blind.comp {f g : Machine σ → Machine σ → Machine σ} (hg : Blind g) (hf : Blind f) :
    Blind fun m n => g m (f m n) where
  usage m n := (hg.usage m (f m n)).trans (hf.usage m n)
  under m n budget interval now later := by rw [hf.under, hg.under]

theorem change {f : Machine σ → Machine σ} (hf : Blind fun _ n => f n) :
    Transparent (modify f : Exec σ PUnit) :=
  steady (fun m => hf.usage m m) fun m budget interval now =>
    congrArg (EStateM.Result.ok PUnit.unit) (hf.under m m budget interval now now)

/-- `Transparent` for a part between an `opening` and a closing, of which neither looks at
the meter. -/
theorem around {x y : Exec σ α} (hx : Transparent x) {opening : Machine σ → Machine σ}
    {close : α → Machine σ → Machine σ → Machine σ} {abandon : Machine σ → Machine σ → Machine σ}
    (opens : Blind fun _ n => opening n) (closes : ∀ a, Blind (close a)) (abandons : Blind abandon)
    (h : ∀ m, y m =
      match x (opening m) with
      | .ok a n => .ok a (close a m n)
      | .error e n => .error e (abandon m n)) : Transparent y where
  grows m := by
    have inner := hx.grows (opening m)
    rw [opens.usage m m] at inner
    rw [h]
    cases hm : x (opening m) with
    | ok a n =>
      rw [hm] at inner
      exact ((closes a).usage m n).symm ▸ inner
    | error e n =>
      rw [hm] at inner
      exact (abandons.usage m n).symm ▸ inner
  enough m budget interval unchecked spared within := by
    have inner := hx.enough (opening m) budget interval unchecked
    rw [h] at spared within
    rw [h, h, opens.under m m budget interval unchecked unchecked]
    cases hm : x (opening m) with
    | ok a n =>
      rw [hm] at inner within
      obtain ⟨later, same⟩ := inner trivial ((closes a).usage m n ▸ within)
      rw [same]
      exact ⟨later, congrArg (EStateM.Result.ok a)
        ((closes a).under m n budget interval unchecked later)⟩
    | error e n =>
      rw [hm] at inner within spared
      obtain ⟨later, same⟩ := inner spared (abandons.usage m n ▸ within)
      rw [same]
      exact ⟨later, congrArg (EStateM.Result.error e)
        (abandons.under m n budget interval unchecked later)⟩
  scarce m budget unchecked spared begun scarce := by
    have inner := hx.scarce (opening m) budget unchecked
    rw [opens.usage m m] at inner
    rw [h] at spared scarce
    have stopped : Ending.Stopped (x ((opening m).under budget 1 unchecked)) := by
      cases hm : x (opening m) with
      | ok a n =>
        rw [hm] at inner scarce
        exact inner trivial begun ((closes a).usage m n ▸ scarce)
      | error e n =>
        rw [hm] at inner scarce spared
        exact inner spared begun (abandons.usage m n ▸ scarce)
    obtain ⟨f, last, failed, crossed⟩ := stopped
    rw [h, opens.under m m budget 1 unchecked unchecked, failed]
    exact ⟨f, _, rfl, crossed⟩

theorem closing {x : Exec σ α} (hx : Transparent x) {close : Machine σ → Machine σ}
    (hc : Blind fun _ n => close n) : Transparent (Exec.closing x close) :=
  hx.around ⟨fun _ _ => rfl, fun _ _ _ _ _ _ => rfl⟩ (fun _ => hc) hc fun m => by
    unfold Exec.closing
    cases x m <;> rfl

theorem charge {x : Metered Unit} {next : Meter → Meter} (hx : Meter.Charges x next) :
    Transparent (Exec.metered x : Exec σ Unit) where
  grows m := by
    rcases hx.cases m.host.meter with ⟨now, charged⟩ | ⟨e, stopped, failed, -, grows, -⟩
    · rw [Exec.metered_of_ok charged]
      exact hx.grows m.host.meter
    · rw [Exec.metered_of_error failed]
      exact grows
  enough m budget interval unchecked spared within := by
    rcases hx.cases m.host.meter with ⟨now, charged⟩ | ⟨e, stopped, failed, crossed, -, -⟩
    · rw [Exec.metered_of_ok charged] at within ⊢
      rcases hx.cases (m.host.meter.under budget interval unchecked) with
        ⟨later, charged'⟩ | ⟨e, stopped, -, -, -, crossed⟩
      · rw [hx.under] at charged'
        exact ⟨later, Exec.metered_of_ok charged'⟩
      · rw [hx.under] at crossed
        exact absurd within crossed
    · rw [Exec.metered_of_error failed] at spared
      exact absurd crossed spared
  scarce m budget unchecked spared begun scarce := by
    rcases hx.cases m.host.meter with ⟨now, charged⟩ | ⟨e, stopped, failed, crossed, -, -⟩
    · rw [Exec.metered_of_ok charged] at scarce
      rcases hx.cases (m.host.meter.under budget 1 unchecked) with
        ⟨later, charged'⟩ | ⟨e, stopped, failed, crossed, -, -⟩
      · have within := hx.prompt (m := m.host.meter.under budget 1 unchecked) rfl begun charged'
        rw [hx.under] at within
        exact absurd within scarce
      · exact ⟨e, _, Exec.metered_of_error failed, crossed⟩
    · rw [Exec.metered_of_error failed] at spared
      exact absurd crossed spared

theorem enterNesting : Transparent (Exec.metered Meter.enterNesting : Exec σ Unit) := by
  refine steady (fun m => ?_) fun m budget interval unchecked => ?_
  · by_cases room : m.host.meter.nesting < maxNesting
    · rw [Exec.metered_of_ok (if_pos room)]
      rfl
    · rw [Exec.metered_of_error (if_neg room)]
      rfl
  · by_cases room : m.host.meter.nesting < maxNesting
    · have room' : (m.under budget interval unchecked).host.meter.nesting < maxNesting := room
      rw [Exec.metered_of_ok (if_pos room), Exec.metered_of_ok (if_pos room')]
      rfl
    · have room' : ¬ (m.under budget interval unchecked).host.meter.nesting < maxNesting := room
      rw [Exec.metered_of_error (if_neg room), Exec.metered_of_error (if_neg room')]
      rfl

theorem lookup (name : String) : Transparent (Exec.lookup name : Exec σ Slot) := by
  refine steady (fun m => ?_) fun m budget interval unchecked => ?_
  · unfold Exec.lookup
    cases m.vars.find? name <;> rfl
  · have same : (m.under budget interval unchecked).vars = m.vars := rfl
    unfold Exec.lookup
    rw [same]
    cases m.vars.find? name <;> rfl

theorem written (name : String) (held : Value) (x : Value.Change) :
    Transparent (Exec.change name held x : Exec σ Unit) := by
  refine steady (fun m => ?_) fun m budget interval unchecked => ?_ <;>
    unfold Exec.change <;> cases x held <;> rfl

theorem store (root : String) (keys : List PathKey) (v : Value) :
    Transparent (Evaluator.store root keys v : Exec σ Unit) := by
  refine bind (lookup root) fun slot => ?_
  split
  · exact throw _
  · exact written _ _ _

theorem outside (x : EStateM ContractError σ α) : Transparent (Exec.outside x) := by
  refine steady (fun m => ?_) fun m budget interval unchecked => ?_
  · unfold Exec.outside
    cases x m.outside <;> rfl
  · have same : (m.under budget interval unchecked).outside = m.outside := rfl
    unfold Exec.outside
    rw [same]
    cases x m.outside <;> rfl

theorem viewing (x : Viewing α) : Transparent (Exec.viewing x : Exec σ α) := by
  refine steady (fun m => ?_) fun m budget interval unchecked => ?_
  · unfold Exec.viewing
    cases x m.host.view <;> rfl
  · have same : (m.under budget interval unchecked).host.view = m.host.view := rfl
    unfold Exec.viewing
    rw [same]
    cases x m.host.view <;> rfl

/-- Which part runs may depend on the contexts. -/
theorem choose {f : List Context → Exec σ α} (hf : ∀ l, Transparent (f l)) :
    Transparent fun m => f m.host.contexts m where
  grows m := (hf m.host.contexts).grows m
  enough m := (hf m.host.contexts).enough m
  scarce m := (hf m.host.contexts).scarce m

theorem withContext {f : Context → Exec σ α} (hf : ∀ c, Transparent (f c)) :
    Transparent (Exec.withContext f) := by
  refine bind (steady (fun m => ?_) fun m budget interval unchecked => ?_) hf
  · unfold Exec.current
    cases m.host.current? <;> rfl
  · have same : (m.under budget interval unchecked).host.current? = m.host.current? := rfl
    unfold Exec.current
    rw [same]
    cases m.host.current? <;> rfl

/-! ### Nested calls -/

variable {s : Surroundings σ}

/-- Whoever watches does not look at the meter. -/
def Unobserved (s : Surroundings σ) : Prop :=
  ∀ (event : Event) (vars : Variables) (host : Host) (meter : Meter) (outside : σ),
    s.watch event vars { host with meter := meter } outside = s.watch event vars host outside

theorem blind_notice (h : Unobserved s) (event : Event) :
    Blind fun _ n => Exec.notice s event n where
  usage _ _ := rfl
  under _ n budget interval _ later := by
    unfold Exec.notice Machine.under Machine.withMeter
    dsimp only
    rw [h]

theorem enter (h : Unobserved s) {x : Evaluator σ}
    (hx : ∀ p name args, Transparent (x.run p name args)) (contract : Contract)
    (child : Context) : Transparent (x.enter s contract child) := by
  have clear : Blind fun _ n : Machine σ => { n with vars := {}, host := n.host.entering child } :=
    ⟨fun _ _ => rfl, fun _ _ _ _ _ _ => rfl⟩
  have leave : Blind fun m n : Machine σ => m.leaving n :=
    ⟨fun _ _ => rfl, fun _ _ _ _ _ _ => rfl⟩
  have rollback : Blind fun m n : Machine σ =>
      n.withView (n.host.view.rollback m.host.view.writes) :=
    ⟨fun _ _ => rfl, fun _ _ _ _ _ _ => rfl⟩
  have resume : ∀ truthy, Blind fun m n : Machine σ => m.resume s child truthy n := by
    intro truthy
    have noticed := (blind_notice h (.returned child.contract truthy)).comp leave
    cases truthy with
    | true => exact noticed
    | false => exact rollback.comp noticed
  exact (hx contract.program EntryPoint.invoke.name child.entryArgs).around
    (Blind.comp (f := fun _ n => { n with vars := {}, host := n.host.entering child })
      (blind_notice h .called) clear)
    (fun v => resume v.truthy) leave fun m => by
      unfold Evaluator.enter Machine.entering
      cases x.run contract.program EntryPoint.invoke.name child.entryArgs _ <;> rfl

theorem callFound (h : Unobserved s) {x : Evaluator σ}
    (hx : ∀ p name args, Transparent (x.run p name args)) (callee : ContractId)
    (child? : Option Context) : Transparent (x.callFound s callee child?) := by
  rw [Evaluator.callFound_eq]
  refine bind (outside _) fun contract => ?_
  split
  · cases child? with
    | none => exact throw _
    | some child => exact enter h hx contract child
  · exact throw _

theorem callContract (h : Unobserved s) {x : Evaluator σ}
    (hx : ∀ p name args, Transparent (x.run p name args)) (target method : String)
    (args : Value) : Transparent (x.callContract s target method args) := by
  cases hc : ContractId.ofHex target with
  | error f =>
    rw [Evaluator.callContract_of_error hc]
    exact throw _
  | ok callee =>
    rw [Evaluator.callContract_of_ok hc]
    refine choose fun contexts => ?_
    unfold Evaluator.callNew
    split
    · exact throw _
    · exact callFound h hx callee _

end Transparent

end Exec

open Exec.Transparent in
/-- Every part of a run is `Transparent`: none shows the budget. -/
theorem parametric_transparent {s : Surroundings σ} (h : Unobserved s) :
    Parametric s s fun _ _ x _ => Exec.Transparent x where
  pure _ _ a := .pure a
  bind := .bind
  widen := id
  fault f := .throw (.script f)
  missing _ := .throw _
  ground := .throw _
  turns := .throw _
  steps n := .charge (Meter.charges_chargeSteps n)
  memory n := .charge (Meter.charges_chargeMemory n)
  lookup := .lookup
  declareGlobal _ _ := .vars _
  declare _ _ := .vars _
  store := .store
  inScope hx := .bind (.vars _) fun _ => .closing hx ⟨fun _ _ => rfl, fun _ _ _ _ _ _ => rfl⟩
  inFrame _ _ _ hx :=
    .bind (.charge Meter.charges_enterFrame) fun _ => .bind (.vars _) fun _ =>
      .closing hx ⟨fun _ _ => rfl, fun _ _ _ _ _ _ => rfl⟩
  nested hx :=
    .bind .enterNesting fun _ => .bind (.change (blind_notice h .entered)) fun _ =>
      .closing (.bind (.charge (Meter.charges_chargeSteps 1)) fun _ => hx)
        ((blind_notice h .left).comp ⟨fun _ _ => rfl, fun _ _ _ _ _ _ => rfl⟩)
  builtin f := .change (blind_notice h (.builtin f))
  hosted f := .change (blind_notice h (.hosted f))
  getState _ := .withContext fun _ => .viewing _
  putState _ _ := .withContext fun _ => .viewing _
  delState _ := .withContext fun _ => .viewing _
  told _ := .withContext fun _ => .pure _
  logLine _ := .withContext fun _ => .steady (fun _ => rfl) fun _ _ _ _ => rfl
  callContract _ _ hx := .callContract h hx

/-! ## Outcomes -/

namespace Exec.Ending

/-- What a run that has ended leaves behind, inside and outside. -/
def outcome : Ending σ Value → Outcome × σ
  | .ok v m => (m.host.outcome (.ok v), m.outside)
  | .error e m => (m.host.outcome (.error e), m.outside)

variable (r : Ending σ Value)

theorem outcome_under (budget : Budget) (interval unchecked : UInt64) :
    (r.under budget interval unchecked).outcome = r.outcome := by
  cases r <;> rfl

theorem usage_outcome : r.outcome.1.usage = r.machine.usage := by
  cases r <;> rfl

theorem spared_iff : r.Spared ↔ ∀ e, r.outcome.1.result = .error e → ¬ e.OverBudget := by
  cases r with
  | ok v m => exact iff_of_true trivial fun e h => by cases h
  | error e m =>
    constructor
    · intro spared f h
      cases h
      exact spared
    · exact fun spared => spared e rfl

end Exec.Ending

theorem execute_eq_outcome (s : Surroundings σ) (contract : Contract) (context : Context)
    (view : View) (budget : Budget) (interval : UInt64) (outside : σ) :
    execute s contract context view budget interval outside =
      Exec.Ending.outcome (runEntry s contract context
        (Machine.start (Host.new (Meter.new budget interval) view context) outside)) := by
  unfold execute Exec.finish
  dsimp only
  cases runEntry s contract context
    (Machine.start (Host.new (Meter.new budget interval) view context) outside) <;> rfl

/-- **What a run reports as used is the least budget.**  If `execute` ends with no error
that is `OverBudget`, it comes to the same outcome, and leaves the same outside, under
every budget that its `usage` is `Within`, whatever the interval; under a budget that it
is not, and with interval 1, it ends with an error that is. -/
theorem execute_usage_least (entries : Committed) (limits : StateLimits)
    (resolve : ContractId → EStateM ContractError σ Contract) (contract : Contract)
    (context : Context) (view : View) (budget : Budget) (interval : UInt64) (outside : σ)
    (spared : ∀ e, (execute { entries, limits, resolve } contract context view budget interval
      outside).1.result = .error e → ¬ e.OverBudget) :
    let run := execute { entries, limits, resolve } contract context view budget interval outside
    (∀ (enough : Budget) (interval' : UInt64), run.1.usage.Within enough →
      execute { entries, limits, resolve } contract context view enough interval' outside = run) ∧
    ∀ scarce : Budget, ¬ run.1.usage.Within scarce →
      ∃ e, (execute { entries, limits, resolve } contract context view scarce 1
        outside).1.result = .error e ∧ e.OverBudget := by
  have transparent :=
    (parametric_transparent (s := { entries, limits, resolve }) fun _ _ _ _ _ => rfl).runEntry
      contract context
  have unused : ∀ b : Budget, (Meter.new budget interval).usage.Within b := fun b =>
    ⟨UInt64.zero_le, UInt64.zero_le, UInt16.zero_le⟩
  rw [execute_eq_outcome] at spared ⊢
  rw [← Exec.Ending.spared_iff] at spared
  dsimp only
  rw [Exec.Ending.usage_outcome]
  refine ⟨fun enough interval' within => ?_, fun scarce short => ?_⟩
  · -- the other run begins with the same machine, up to budget and interval
    obtain ⟨later, same⟩ := transparent.enough _ enough (Meter.new enough interval').interval 0
      spared within
    rw [execute_eq_outcome]
    exact (congrArg Exec.Ending.outcome same).trans (Exec.Ending.outcome_under _ _ _ _)
  · obtain ⟨e, last, failed, crossed⟩ := transparent.scarce _ scarce 0 spared (unused scarce) short
    rw [execute_eq_outcome]
    refine ⟨e, ?_, crossed⟩
    exact congrArg (fun r => (Exec.Ending.outcome r).1.result) failed

namespace NestedInvocation

/-- Answers who called. -/
def callee : Contract := .specimen 1 [.result (some (.call "Caller" []))]

/-- Puts a word before what the other one answers. -/
def caller : Contract :=
  .specimen 0
    [.result (some
      (.binary .add (.str "by ")
        (.call "CallContract" [.str callee.id.hex, .str "", .null])))]

/-- Finds the other one. -/
def resolve (id : ContractId) : EStateM ContractError Unit Contract :=
  if id = callee.id then pure callee else throw (.contractNotFound id)

/-- The caller's invocation under a budget. -/
def run (budget : Budget) (interval : UInt64) : Outcome × Unit :=
  execute { entries := ∅, limits := {}, resolve } caller
    (.forInvoke caller.id "" "" .null 0) {} budget interval ()

/-- `execute_usage_least` for the invocation: it needs sixty steps, 198 bytes and two
frames, and comes through with just that. -/
theorem run_needs :
    (run {} 1000).1.usage = ⟨60, 198, 2⟩ ∧ run ⟨60, 198, 2⟩ 7 = run {} 1000 ∧
      ∃ e, (run ⟨59, 198, 2⟩ 1).1.result = .error e ∧ e.OverBudget := by
  have returned : (run {} 1000).1.result.isOk = true := by decide +kernel
  have used : (run {} 1000).1.usage = ⟨60, 198, 2⟩ := by decide +kernel
  have spared : ∀ e, (run {} 1000).1.result = .error e → ¬ e.OverBudget := by
    intro e failed
    rw [failed] at returned
    cases returned
  have enough : (run {} 1000).1.usage.Within ⟨60, 198, 2⟩ := by
    rw [used]
    decide
  have scarce : ¬ (run {} 1000).1.usage.Within ⟨59, 198, 2⟩ := by
    rw [used]
    decide
  unfold run at used spared enough scarce ⊢
  have least := execute_usage_least ∅ {} resolve caller (.forInvoke caller.id "" "" .null 0) {} {}
    1000 () spared
  exact ⟨used, least.1 _ 7 enough, least.2 _ scarce⟩

end NestedInvocation

end LedgerScript
