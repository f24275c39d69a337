import LedgerScript.Proofs.Machine.Changes
import LedgerScript.Proofs.Machine.Held
import LedgerScript.Proofs.Value.Parts

/-!
# The memory ceiling

New texts, lists and maps are charged to memory, and what is read or copied is
no larger than what it was read from.  So a program cannot make a value that is
larger than the ceiling and its arguments together (`Evaluator.size_le_of_run`),
as long as it does not assign to places inside of values: that changes a value
without a charge (`SlotAssignment.size_gt`).
-/

namespace LedgerScript

open Script (Program Act)

variable {σ α β : Type}

/-! ## Programs that compute by themselves -/

namespace Script

def Act.inPlace : Act → Bool
  | .change _ => true
  | .call _ => false

/-- A program that calls no `HostFunction`; it may have functions of such names. -/
def Program.Offline (p : Program) : Prop :=
  ∀ f ∈ HostFunction.all, Act.call f.name ∈ p.acts → f.name ∈ p.functions

/-- A program that assigns to whole variables only. -/
def Program.AssignsWhole (p : Program) : Prop :=
  ∀ act ∈ p.acts, act.inPlace = false

instance (p : Program) : Decidable p.Offline :=
  inferInstanceAs (Decidable (∀ f ∈ HostFunction.all, _ → _))

instance (p : Program) : Decidable p.AssignsWhole :=
  inferInstanceAs (Decidable (∀ act ∈ p.acts, _))

end Script

theorem HostFunction.mem_all (f : HostFunction) : f ∈ all := by
  cases f <;> decide

/-! ## Values under a limit -/

/-- A scalar, or a value whose `size` is within the limit as far as a word can count it. -/
def Value.Fits (limit : Nat) (v : Value) : Prop :=
  v.compound = true → (saturate v.size).toNat ≤ limit

namespace Value

variable {limit : Nat} {v w : Value}

theorem fits_of_scalar (h : v.compound = false) : v.Fits limit := by
  intro compound
  rw [h] at compound
  cases compound

theorem Fits.of_within (h : v.Fits limit) (inside : w.Within v) : w.Fits limit := by
  intro compound
  obtain ⟨whole, le⟩ := inside compound
  have fits := h whole
  rw [toNat_saturate] at fits ⊢
  omega

theorem fits_of_size_le (h : v.size ≤ limit) : v.Fits limit := by
  intro _
  rw [toNat_saturate]
  omega

end Value

theorem Meter.saturate_le_of_chargeMemory {n : Nat} {m next : Meter}
    (h : chargeMemory n m = .ok () next) : (saturate n).toNat ≤ m.budget.maxMemory.toNat := by
  unfold chargeMemory at h
  dsimp only at h
  split at h
  · rename_i within
    rw [UInt64.le_iff_toNat_le, toNat_saturate] at within
    rw [toNat_saturate]
    omega
  · cases h

/-! ## Runs under a limit -/

/-- All values are `Fits`, no program reaches the host, and none changes a value in place. -/
def Regime.frugal (limit : Nat) : Regime where
  value := Value.Fits limit
  act p
    | .call name => ∀ f : HostFunction, f.name = name → name ∈ p.functions
    | .change _ => False

theorem Regime.admits_frugal {p : Program} (offline : p.Offline) (assigns : p.AssignsWhole)
    (limit : Nat) : (frugal limit).Admits p := by
  intro act mem
  cases act with
  | call name =>
    rintro f rfl
    exact offline f f.mem_all mem
  | change root =>
    have whole : true = false := assigns _ mem
    cases whole

theorem Regime.not_hosts_frugal {p : Program} {limit : Nat} : ¬ (frugal limit).Hosts p := by
  rintro ⟨f, act, free⟩
  have found := Std.ExtTreeMap.isSome_getElem?_iff_mem.2 (act f rfl)
  rw [free] at found
  cases found

/-- The ceiling is within the limit, and the variables hold what `Fits`. -/
structure Machine.Fits (limit : Nat) (m : Machine σ) : Prop where
  ceiling : m.host.meter.budget.maxMemory.toNat ≤ limit
  vars : m.vars.All (Value.Fits limit)

theorem Machine.Fits.withMeter {limit : Nat} {m : Machine σ} (h : m.Fits limit) {next : Meter}
    (follows : m.host.meter.Follows next) : (m.withMeter next).Fits limit where
  ceiling := by
    change next.budget.maxMemory.toNat ≤ limit
    rw [follows.budget]
    exact h.ceiling
  vars := h.vars

namespace Exec

/-- A run that returns leaves and gives what `Fits`. -/
def Fitting (limit : Nat) [Holding α] (x : Exec σ α) : Prop :=
  ∀ ⦃m : Machine σ⦄ ⦃a : α⦄ ⦃next : Machine σ⦄, m.Fits limit → x m = .ok a next →
    next.Fits limit ∧ (Regime.frugal limit).Each a

namespace Fitting

variable {limit : Nat} [Holding α] [Holding β] {x : Exec σ α}

theorem pure {a : α} (ha : (Regime.frugal limit).Each a) : Fitting limit (pure a : Exec σ α) := by
  intro m b next fits ran
  cases ran
  exact ⟨fits, ha⟩

theorem throw (e : ContractError) : Fitting limit (throw e : Exec σ α) := by
  intro m a next _ ran
  cases ran

theorem bind {f : α → Exec σ β} (hx : Fitting limit x)
    (hf : ∀ a, (Regime.frugal limit).Each a → Fitting limit (f a)) : Fitting limit (x >>= f) := by
  intro m b next fits ran
  obtain ⟨a, mid, first, second⟩ := bind_eq_ok ran
  obtain ⟨fits, ha⟩ := hx fits first
  exact hf a ha fits second

theorem metered {x : Metered Unit} (hx : ∀ {m next}, Ends x m next → m.Follows next) :
    Fitting limit (Exec.metered x : Exec σ Unit) := by
  intro m a next fits ran
  cases hm : x m.host.meter with
  | error e meter =>
    rw [metered_of_error hm] at ran
    cases ran
  | ok a meter =>
    rw [metered_of_ok hm] at ran
    cases ran
    exact ⟨fits.withMeter (hx (.inl ⟨_, hm⟩)), trivial⟩

theorem charged {x : Metered Unit} (hx : ∀ {m next}, Ends x m next → m.Charged next) :
    Fitting limit (Exec.metered x : Exec σ Unit) :=
  metered fun ends => (hx ends).toFollows

theorem modify {f : Machine σ → Machine σ} (hv : ∀ m, (f m).vars = m.vars)
    (hb : ∀ m, (f m).host.meter.budget = m.host.meter.budget) :
    Fitting limit (modify f : Exec σ PUnit) := by
  intro m a next fits ran
  cases ran
  refine ⟨⟨?_, ?_⟩, trivial⟩
  · rw [hb]
    exact fits.ceiling
  · rw [hv]
    exact fits.vars

theorem vars {f : Variables → Variables}
    (hf : ∀ v, v.All (Value.Fits limit) → (f v).All (Value.Fits limit)) :
    Fitting limit (Exec.vars f : Exec σ Unit) := by
  intro m a next fits ran
  cases ran
  exact ⟨⟨fits.ceiling, hf _ fits.vars⟩, trivial⟩

theorem closing {close : Machine σ → Machine σ} (hx : Fitting limit x)
    (hc : ∀ m, m.Fits limit → (close m).Fits limit) : Fitting limit (Exec.closing x close) := by
  intro m a next fits ran
  cases hm : x m with
  | error e mid =>
    rw [closing_of_error hm] at ran
    cases ran
  | ok b mid =>
    rw [closing_of_ok hm] at ran
    cases ran
    obtain ⟨fits, hb⟩ := hx fits hm
    exact ⟨hc mid fits, hb⟩

/-- A new value `Fits` because `chargeNew` allows for it. -/
theorem made (v : Value) :
    Fitting limit (Exec.chargeNew v >>= fun _ => Pure.pure v : Exec σ Value) := by
  have charged : Fitting limit
      (Exec.metered (Meter.chargeMemory v.size) >>= fun _ => Pure.pure v : Exec σ Value) := by
    intro m a next fits ran
    obtain ⟨_, mid, first, second⟩ := bind_eq_ok ran
    cases second
    cases hm : Meter.chargeMemory v.size m.host.meter with
    | error e meter =>
      rw [metered_of_error hm] at first
      cases first
    | ok b meter =>
      rw [metered_of_ok hm] at first
      cases first
      have within := Meter.saturate_le_of_chargeMemory hm
      have follows := (Meter.charged_chargeMemory (.inl ⟨_, hm⟩)).toFollows
      exact ⟨fits.withMeter follows, fun _ => Nat.le_trans within fits.ceiling⟩
  cases v with
  | null => exact pure (Value.fits_of_scalar rfl)
  | bool b => exact pure (Value.fits_of_scalar rfl)
  | int n => exact pure (Value.fits_of_scalar rfl)
  | str s => exact charged
  | list items => exact charged
  | map entries => exact charged

theorem lookup (name : String) : Fitting limit (Exec.lookup name : Exec σ Slot) := by
  intro m slot next fits ran
  cases hm : m.vars.find? name with
  | none =>
    rw [lookup_of_none hm] at ran
    cases ran
  | some found =>
    rw [lookup_of_some hm] at ran
    cases ran
    exact ⟨fits, fits.vars.find? hm⟩

theorem store (root : String) {v : Value} (hv : v.Fits limit) :
    Fitting limit (Evaluator.store root [] v : Exec σ Unit) := by
  refine bind (lookup root) fun slot _ => ?_
  split
  · exact throw _
  · exact vars fun _ all => all.update root hv

end Fitting

end Exec

/-- `Regime.frugal` programs make nothing that does not fit. -/
theorem parametric_fitting (s : Surroundings σ) (limit : Nat) :
    ParametricOn (.frugal limit) s s fun _ _ _ _ x _ => Exec.Fitting limit x where
  null := Value.fits_of_scalar rfl
  bool _ := Value.fits_of_scalar rfl
  int _ := Value.fits_of_scalar rfl
  part fits found := fits.of_within (Value.within_readPath found)
  making := Regime.making_of_forall fun _ => trivial
  pure _ _ _ _ _ ha := .pure ha
  bind hx hf := .bind hx hf
  widen := id
  fault _ _ _ f := .throw (.script f)
  missing _ _ := .throw _
  ground _ _ _ := .throw _
  turns _ _ _ := .throw _
  steps _ _ := .charged Meter.charged_chargeSteps
  made _ v _ := .made v
  lookup _ := .lookup
  declareGlobal _ name _ hs := .vars fun _ all => all.declareGlobal name hs
  declare _ name _ hs := .vars fun _ all => all.declare name hs
  store root keys v hv place := by
    rcases place with rfl | inside
    · exact .store root hv
    · exact inside.elim
  inScope hx := .bind (.vars fun _ all => all.pushScope) fun _ _ =>
    .closing hx fun m fits => ⟨fits.ceiling, fits.vars.popScope⟩
  inFrame params args _ _ hargs hx := by
    have scope : Scope.All (Value.Fits limit) (Variables.bindArgs ∅ params args) :=
      Scope.all_empty.bindArgs (Value.fits_of_scalar rfl) hargs
    exact .bind (.metered Meter.follows_enterFrame) fun _ _ =>
      .bind (.vars fun _ all => all.pushFrame scope) fun _ _ =>
        .closing hx fun m fits => ⟨fits.ceiling, fits.vars.popFrame⟩
  nested hx :=
    .bind (.charged Meter.charged_enterNesting) fun _ _ =>
      .bind (.modify (fun _ => rfl) fun _ => rfl) fun _ _ =>
        .closing (.bind (.charged Meter.charged_chargeSteps) fun _ _ => hx) fun m fits =>
          ⟨fits.ceiling, fits.vars⟩
  builtin _ _ _ := .modify (fun _ => rfl) fun _ => rfl
  hosted _ _ _ := .modify (fun _ => rfl) fun _ => rfl
  memory _ host := (Regime.not_hosts_frugal host).elim
  getState _ host := (Regime.not_hosts_frugal host).elim
  putState _ _ _ host := (Regime.not_hosts_frugal host).elim
  delState _ host := (Regime.not_hosts_frugal host).elim
  told _ _ host := (Regime.not_hosts_frugal host).elim
  logLine _ host := (Regime.not_hosts_frugal host).elim
  callContract host := (Regime.not_hosts_frugal host).elim

/-- **What a program makes of its memory.**  The `size` of a text, list or map that a
function returns is at most the memory ceiling and that of the arguments together, if the
program is `Offline` and `AssignsWhole`. -/
theorem Evaluator.size_le_of_run {s : Surroundings σ} {p : Program} (offline : p.Offline)
    (assigns : p.AssignsWhole) {name : String} {args : List Value} {host : Host} {outside : σ}
    {v : Value} {next : Machine σ}
    (returned : (whole s).run p name args (.start host outside) = .ok v next)
    (compound : v.compound = true) :
    (saturate v.size).toNat ≤ host.meter.budget.maxMemory.toNat + Value.sizeOfItems args := by
  let limit := host.meter.budget.maxMemory.toNat + Value.sizeOfItems args
  have begun : (Machine.start host outside).Fits limit := ⟨Nat.le_add_right .., Variables.All.empty⟩
  have given : (Regime.frugal limit).Each args := by
    intro arg mem
    have part := Value.size_le_sizeOfItems mem
    exact Value.fits_of_size_le (Nat.le_trans part (Nat.le_add_left ..))
  have closed := parametric_fitting s limit
  have fitting := closed.run (closed.ofLevels maxNesting)
    (Regime.admits_frugal offline assigns limit) name args given
  exact (fitting begun returned).2 compound

namespace SlotAssignment

/-- Runs a function of a program under a memory ceiling. -/
def run (p : Program) (args : List Value) (ceiling : UInt64) :
    EStateM.Result ContractError (Machine Unit) Value :=
  let context := Context.forInvoke (Contract.specimen 0 []).id "" "" .null 0
  (Evaluator.whole .bare).run p "f" args
    (.start (.new (.new { maxMemory := ceiling } 1) {} context) ())

/-- `parse` makes a program of a text, and its function returns a value that checks out. -/
def returns (source : String) (args : List Value) (ceiling : UInt64)
    (check : Program → Value → Bool) : Bool :=
  (Script.parse source Script.maxParseDepth).toOption.any fun p =>
    match run p args ceiling with
    | .ok v _ => check p v
    | .error _ _ => false

theorem exists_of_returns {source : String} {args : List Value} {ceiling : UInt64}
    {check : Program → Value → Bool} (h : returns source args ceiling check = true) :
    ∃ p, Script.parse source Script.maxParseDepth = .ok p ∧
      ∃ v next, run p args ceiling = .ok v next ∧ check p v = true := by
  obtain ⟨p, parsed, returned⟩ := exists_ok_of_any h
  cases ran : run p args ceiling with
  | error e next =>
    rw [ran] at returned
    cases returned
  | ok v next =>
    rw [ran] at returned
    exact ⟨p, parsed, v, next, ran, returned⟩

/-- Builds a list out of its argument. -/
def honest : String :=
  "function f(a) \x7b let b = [a, a]; b = push(b, \"x\"); return b; \x7d"

/-- `size_le_of_run` where a list is built from an argument. -/
theorem honest_size_le : ∃ p, Script.parse honest Script.maxParseDepth = .ok p ∧ p.Offline ∧
    p.AssignsWhole ∧ ∃ v next, run p [.list [.int 1, .int 2]] 194 = .ok v next ∧
      v.compound = true ∧ (saturate v.size).toNat ≤ 194 + 32 := by
  have evaluated : returns honest [.list [.int 1, .int 2]] 194 (fun p v =>
      decide (p.Offline ∧ p.AssignsWhole ∧ v.compound = true)) = true := by decide +kernel
  obtain ⟨p, parsed, v, next, ran, checked⟩ := exists_of_returns evaluated
  obtain ⟨offline, assigns, compound⟩ := of_decide_eq_true checked
  refine ⟨p, parsed, offline, assigns, v, next, ran, compound, ?_⟩
  unfold run at ran
  exact Evaluator.size_le_of_run offline assigns ran compound

/-- Puts a text into a list three times. -/
def source : String :=
  "function f() \x7b let s = \"xxxxxxxxxxxxxxxxxxxxxxxx\"; let a = [0, 0, 0]; " ++
    "a[0] = s; a[1] = s; a[2] = s; return a; \x7d"

/-- `Value.writePath` makes a list of 136 bytes under a ceiling of 80. -/
theorem size_gt : ∃ p, Script.parse source Script.maxParseDepth = .ok p ∧ p.Offline ∧
    ∃ v next, run p [] 80 = .ok v next ∧ v.compound = true ∧
      80 + Value.sizeOfItems [] < (saturate v.size).toNat := by
  have evaluated : returns source [] 80 (fun p v => decide (p.Offline ∧ v.compound = true ∧
      80 + Value.sizeOfItems [] < (saturate v.size).toNat)) = true := by decide +kernel
  obtain ⟨p, parsed, v, next, ran, checked⟩ := exists_of_returns evaluated
  obtain ⟨offline, compound, larger⟩ := of_decide_eq_true checked
  exact ⟨p, parsed, offline, v, next, ran, compound, larger⟩

end SlotAssignment

end LedgerScript
