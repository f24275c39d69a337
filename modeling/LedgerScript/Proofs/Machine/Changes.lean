import LedgerScript.Proofs.Machine.NestedCall
import LedgerScript.Proofs.Machine.Parametricity
import LedgerScript.Proofs.State.Reading

/-!
# What runs change

A run changes a machine in few ways: it charges the meter, looks at committed
state, writes, logs, finds contracts and calls them.  Two relations that allow
for each of these changes, one for runs that return and one for runs that fail
(`Allows`), allow for every run (`Allows.run`, `Allows.runEntry`).  Where it
matters how many levels are left, there are two such relations for each level
(`AllowsLevels.runEntry`).
-/

namespace LedgerScript

open Script (Program)

variable {σ α β : Type}

/-! ## The meter -/

/-- What every change of a `Meter` keeps: its ceilings, and that the deepest frame lies
within them. -/
structure Meter.Follows (a b : Meter) : Prop where
  budget : b.budget = a.budget
  interval : b.interval = a.interval
  maxDepth : a.maxDepth ≤ a.budget.maxDepth → b.maxDepth ≤ b.budget.maxDepth

/-- What every change of a `Meter` keeps that opens and closes no frame. -/
structure Meter.Charged (a b : Meter) : Prop extends a.Follows b where
  depth : b.depth = a.depth

/-- What every change of a `Meter` keeps that opens and closes nothing. -/
structure Meter.Spent (a b : Meter) : Prop extends a.Charged b where
  nesting : b.nesting = a.nesting
  deepest : b.maxDepth = a.maxDepth

namespace Meter

theorem spent_chargeSteps {n : Nat} {m next : Meter} (h : Ends (chargeSteps n) m next) :
    m.Spent next := by
  unfold Ends chargeSteps at h
  dsimp only at h
  rcases h with ⟨a, h⟩ | ⟨e, h⟩ <;> split at h
  · cases h
    exact ⟨⟨⟨rfl, rfl, id⟩, rfl⟩, rfl, rfl⟩
  · split at h <;> cases h
    exact ⟨⟨⟨rfl, rfl, id⟩, rfl⟩, rfl, rfl⟩
  · cases h
  · split at h <;> cases h
    exact ⟨⟨⟨rfl, rfl, id⟩, rfl⟩, rfl, rfl⟩

theorem charged_chargeSteps {n : Nat} {m next : Meter} (h : Ends (chargeSteps n) m next) :
    m.Charged next :=
  (spent_chargeSteps h).toCharged

theorem spent_chargeMemory {n : Nat} {m next : Meter} (h : Ends (chargeMemory n) m next) :
    m.Spent next := by
  unfold Ends chargeMemory at h
  dsimp only at h
  rcases h with ⟨a, h⟩ | ⟨e, h⟩ <;> split at h <;> cases h <;>
    exact ⟨⟨⟨rfl, rfl, id⟩, rfl⟩, rfl, rfl⟩

theorem charged_chargeMemory {n : Nat} {m next : Meter} (h : Ends (chargeMemory n) m next) :
    m.Charged next :=
  (spent_chargeMemory h).toCharged

theorem charged_enterNesting {m next : Meter} (h : Ends enterNesting m next) :
    m.Charged next := by
  unfold Ends enterNesting at h
  rcases h with ⟨a, h⟩ | ⟨e, h⟩ <;> split at h <;> cases h <;> exact ⟨⟨rfl, rfl, id⟩, rfl⟩

theorem charged_exitNesting (m : Meter) : m.Charged m.exitNesting := ⟨⟨rfl, rfl, id⟩, rfl⟩

theorem follows_enterFrame {m next : Meter} (h : Ends enterFrame m next) : m.Follows next := by
  rcases h with ⟨⟨⟩, opened⟩ | ⟨e, refused⟩
  · obtain ⟨fits, rfl⟩ := enterFrame_eq_ok opened
    refine ⟨rfl, rfl, fun before => ?_⟩
    change (if m.maxDepth ≤ m.deeper then m.deeper else m.maxDepth) ≤ m.budget.maxDepth
    split
    · exact fits
    · exact before
  · obtain ⟨-, rfl⟩ := enterFrame_eq_error refused
    exact ⟨rfl, rfl, id⟩

theorem nesting_enterFrame {m opened : Meter} (h : enterFrame m = .ok () opened) :
    opened.nesting = m.nesting := by
  obtain ⟨-, rfl⟩ := enterFrame_eq_ok h
  rfl

theorem follows_exitFrame (m : Meter) : m.Follows m.exitFrame := ⟨rfl, rfl, id⟩

theorem toNat_succ {n : UInt16} (low : n ≠ 65535) : (n + 1).toNat = n.toNat + 1 := by
  have bound := n.toNat_lt
  have other : n.toNat ≠ 65535 := fun same => low (UInt16.toNat_inj.1 same)
  rw [UInt16.toNat_add]
  exact Nat.mod_eq_of_lt (by simp; omega)

theorem depth_enterFrame {meter opened : Meter} (h : enterFrame meter = .ok () opened)
    (low : meter.depth ≠ 65535) :
    opened.depth = meter.depth + 1 ∧ opened.depth ≤ meter.budget.maxDepth := by
  obtain ⟨fits, rfl⟩ := enterFrame_eq_ok h
  exact ⟨if_neg low, fits⟩

theorem depth_exitFrame {meter : Meter} {depth : UInt16} (h : meter.depth = depth + 1)
    (low : depth ≠ 65535) : meter.exitFrame.depth = depth := by
  have positive : ¬ meter.depth = 0 := by
    intro zero
    have next := toNat_succ low
    rw [← h, zero] at next
    cases next
  unfold exitFrame
  rw [if_neg positive, h]
  exact UInt16.add_sub_cancel ..

end Meter

/-! ## Machines -/

/-- The machine inside of `Exec.inFrame`, once the frame has been opened. -/
def Machine.inFrame (m : Machine σ) (opened : Meter) (scope : Scope) : Machine σ :=
  { m.withMeter opened with vars := m.vars.pushFrame scope }

def Machine.outFrame (m : Machine σ) : Machine σ :=
  { m.withMeter m.host.meter.exitFrame with vars := m.vars.popFrame }

/-- The machine inside of `Exec.nested`, once the level has been opened. -/
def Machine.inLevel (s : Surroundings σ) (m : Machine σ) : Machine σ :=
  Exec.notice s .entered (m.withMeter { m.host.meter with nesting := m.host.meter.nesting + 1 })

def Machine.outLevel (s : Surroundings σ) (m : Machine σ) : Machine σ :=
  Exec.notice s .left (m.withMeter m.host.meter.exitNesting)

/-- `Q` allows for the changes that a contract makes by itself before it returns,
and `E` for those that it makes before it fails, but for variables, levels and
frames. -/
structure AllowsStill (s : Surroundings σ) (Q E : Machine σ → Machine σ → Prop) : Prop where
  refl : ∀ m, Q m m
  trans : ∀ {a b c}, Q a b → Q b c → Q a c
  fail : ∀ m, E m m
  after : ∀ {a b c}, Q a b → E b c → E a c
  before : ∀ {a b c}, E a b → Q b c → E a c
  spent : ∀ (m : Machine σ) (next : Meter), m.host.meter.Spent next → Q m (m.withMeter next)
  look : ∀ (m : Machine σ) (key : StateKey), m.host.space? = some key.space →
    Q m (m.withView (m.host.view.look s.entries key))
  write : ∀ (m : Machine σ) (key : StateKey) (op : WriteOp), m.host.space? = some key.space →
    key.reserved = false →
    Q m (m.withView { m.host.view with writes := m.host.view.writes.insert key op })
  log : ∀ (m : Machine σ) (line : String),
    Q m { m with host := { m.host with logs := line :: m.host.logs } }
  resolve : ∀ (m : Machine σ) (callee : ContractId) (outside : σ),
    Ends (s.resolve callee) m.outside outside → Q m (m.withOutside outside)

/-- `AllowsStill` with changes of variables. -/
structure AllowsPlain (s : Surroundings σ) (Q E : Machine σ → Machine σ → Prop) : Prop
    extends AllowsStill s Q E where
  vars : ∀ (m : Machine σ) (v : Variables), Q m { m with vars := v }

/-- The same with levels and frames. -/
structure AllowsOwn (s : Surroundings σ) (Q E : Machine σ → Machine σ → Prop) : Prop
    extends AllowsPlain s Q E where
  meter : ∀ (m : Machine σ) (next : Meter), m.host.meter.Charged next → Q m (m.withMeter next)
  spent := fun m next spent => meter m next spent.toCharged
  framed : ∀ {m next : Machine σ} {opened : Meter} {scope : Scope},
    Meter.enterFrame m.host.meter = .ok () opened → Q (m.inFrame opened scope) next →
      Q m next.outFrame
  framedError : ∀ {m next : Machine σ} {opened : Meter} {scope : Scope},
    Meter.enterFrame m.host.meter = .ok () opened → E (m.inFrame opened scope) next →
      E m next.outFrame
  entered : ∀ m : Machine σ, Q m (Exec.notice s .entered m)
  left : ∀ m : Machine σ, Q m (Exec.notice s .left m)

/-- `Q` and `E` allow for what a call to another contract changes, if `Q'` and `E'`
allow for what the called contract does. -/
structure AllowsCall (s : Surroundings σ) (Q E Q' E' : Machine σ → Machine σ → Prop) :
    Prop where
  returned : ∀ (m next : Machine σ) (child : Context) (truthy : Bool), m.MayCall child →
    m.HasFound s child.contract → m.Restores next → Q' (m.entering s child) next →
      Q m (m.resume s child truthy next)
  broken : ∀ (m next : Machine σ) (child : Context), m.MayCall child →
    m.HasFound s child.contract → m.Restores next → E' (m.entering s child) next →
      E m (m.leaving next)

/-- `Q` and `E` allow for what each program of a regime does, but for levels, frames
and the calls that it makes. -/
structure AllowsPhrases (g : Regime) (s : Surroundings σ)
    (Q E : Program → Machine σ → Machine σ → Prop) : Prop where
  value : ∀ v, g.value v
  fresh : ∀ v, g.fresh v := by exact fun _ => trivial
  admits : ∀ p, g.Admits p
  plain : ∀ p, AllowsPlain s (Q p) (E p)
  builtin : ∀ {p : Program} (m : Machine σ) (f : Builtin), g.act p (.call f.name) →
    p.functions[f.name]? = none → Q p m (Exec.notice s (.builtin f) m)
  hosted : ∀ {p : Program} (m : Machine σ) (f : HostFunction), g.act p (.call f.name) →
    p.functions[f.name]? = none → Q p m (Exec.notice s (.hosted f) m)

/-- The same with levels and frames. -/
structure AllowsParts (g : Regime) (s : Surroundings σ)
    (Q E : Program → Machine σ → Machine σ → Prop) : Prop extends AllowsPhrases g s Q E where
  own : ∀ p, AllowsOwn s (Q p) (E p)
  plain := fun p => (own p).toAllowsPlain

/-- The same for each program of a regime, with the calls that it makes. -/
structure Allows (g : Regime) (s : Surroundings σ)
    (Q E : Program → Machine σ → Machine σ → Prop) : Prop extends AllowsParts g s Q E where
  returned : ∀ {p q : Program} (m next : Machine σ) (child : Context) (truthy : Bool),
    m.MayCall child → m.Restores next → Q q (m.entering s child) next →
      Q p m (m.resume s child truthy next)
  broken : ∀ {p q : Program} (m next : Machine σ) (child : Context), m.MayCall child →
    m.Restores next → E q (m.entering s child) next → E p m (m.leaving next)

/-- Every change in a family is allowed for the parts, and a call is allowed for one
level above what the called contract does. -/
structure AllowsLevels (g : Regime) (s : Surroundings σ)
    (Q E : Nat → Program → Machine σ → Machine σ → Prop) : Prop where
  parts : ∀ n, AllowsParts g s (Q n) (E n)
  rise : ∀ {n : Nat} {p : Program} {a b : Machine σ}, Q n p a b → Q (n + 1) p a b
  riseError : ∀ {n : Nat} {p : Program} {a b : Machine σ}, E n p a b → E (n + 1) p a b
  call : ∀ (n : Nat) (p q : Program),
    AllowsCall s (Q (n + 1) p) (E (n + 1) p) (Q n q) (E n q)

namespace Exec

/-- A run from `m` returns after a change of one sort or fails after one of the
other. -/
def LeadsFrom (Q E : Machine σ → Machine σ → Prop) (x : Exec σ α) (m : Machine σ) : Prop :=
  (∃ a next, x m = .ok a next ∧ Q m next) ∨ ∃ e next, x m = .error e next ∧ E m next

/-- How a run may change a machine: it `LeadsFrom` every one. -/
def Leads (Q E : Machine σ → Machine σ → Prop) (x : Exec σ α) : Prop := ∀ m, x.LeadsFrom Q E m

variable {Q E : Machine σ → Machine σ → Prop} {x : Exec σ α} {m next : Machine σ}

theorem LeadsFrom.of_ok {a : α} (h : x m = .ok a next) (hq : Q m next) : x.LeadsFrom Q E m :=
  .inl ⟨a, next, h, hq⟩

theorem LeadsFrom.of_error {e : ContractError} (h : x m = .error e next) (he : E m next) :
    x.LeadsFrom Q E m :=
  .inr ⟨e, next, h, he⟩

theorem LeadsFrom.of_eq {y : Exec σ α} (h : y.LeadsFrom Q E m) (same : x m = y m) :
    x.LeadsFrom Q E m := by
  unfold LeadsFrom
  rw [same]
  exact h

theorem Leads.ok (h : x.Leads Q E) {a : α} (hx : x m = .ok a next) : Q m next := by
  rcases h m with ⟨b, mid, hb, allowed⟩ | ⟨e, mid, he, -⟩
  · cases hb.symm.trans hx
    exact allowed
  · cases he.symm.trans hx

theorem Leads.error (h : x.Leads Q E) {e : ContractError} (hx : x m = .error e next) :
    E m next := by
  rcases h m with ⟨b, mid, hb, -⟩ | ⟨f, mid, hf, allowed⟩
  · cases hb.symm.trans hx
  · cases hf.symm.trans hx
    exact allowed

theorem Leads.mono (h : x.Leads Q E) {Q' E' : Machine σ → Machine σ → Prop}
    (returns : ∀ {a b}, Q a b → Q' a b) (fails : ∀ {a b}, E a b → E' a b) : x.Leads Q' E' :=
  fun m => (h m).imp (fun ⟨a, next, ran, done⟩ => ⟨a, next, ran, returns done⟩)
    fun ⟨e, next, ran, failed⟩ => ⟨e, next, ran, fails failed⟩

theorem Leads.ends (h : x.Leads Q Q) (hx : Ends x m next) : Q m next := by
  rcases hx with ⟨a, ha⟩ | ⟨e, he⟩
  · exact h.ok ha
  · exact h.error he

end Exec

/-- `modify` makes the change that it is given. -/
theorem Exec.Leads.modify {Q E : Machine σ → Machine σ → Prop} {f : Machine σ → Machine σ}
    (hf : ∀ m, Q m (f m)) : (modify f : Exec σ PUnit).Leads Q E :=
  fun m => .of_ok (a := ()) rfl (hf m)

namespace AllowsStill

variable {s : Surroundings σ} {Q E : Machine σ → Machine σ → Prop}

/-- A change that `Q` allows is one that `E` allows, too. -/
theorem fails (h : AllowsStill s Q E) {m next : Machine σ} (hq : Q m next) : E m next :=
  h.after hq (h.fail next)

theorem leads_pure (h : AllowsStill s Q E) (a : α) : Exec.Leads Q E (pure a : Exec σ α) :=
  fun m => .of_ok rfl (h.refl m)

theorem leads_throw (h : AllowsStill s Q E) (e : ContractError) :
    Exec.Leads Q E (throw e : Exec σ α) :=
  fun m => .of_error rfl (h.fail m)

theorem leads_bind (h : AllowsStill s Q E) {x : Exec σ α} {f : α → Exec σ β} (hx : x.Leads Q E)
    (hf : ∀ a, (f a).Leads Q E) : (x >>= f).Leads Q E := by
  intro m
  rcases hx m with ⟨a, mid, ha, first⟩ | ⟨e, mid, he, failed⟩
  · rcases hf a mid with ⟨b, next, hb, second⟩ | ⟨e, next, he, failed⟩
    · exact .of_ok ((bind_of_ok ha).trans hb) (h.trans first second)
    · exact .of_error ((bind_of_ok ha).trans he) (h.after first failed)
  · exact .of_error (bind_of_error he) failed

theorem leads_metered (h : AllowsStill s Q E) {x : Metered α}
    (hx : ∀ m meter, Ends x m.host.meter meter → Q m (m.withMeter meter)) :
    (Exec.metered x : Exec σ α).Leads Q E := by
  intro m
  cases hm : x m.host.meter with
  | ok a meter => exact .of_ok (Exec.metered_of_ok hm) (hx m meter (.inl ⟨a, hm⟩))
  | error e meter =>
    exact .of_error (Exec.metered_of_error hm) (h.fails (hx m meter (.inr ⟨e, hm⟩)))

theorem leads_spent (h : AllowsStill s Q E) {x : Metered α}
    (hx : ∀ {m next}, Ends x m next → m.Spent next) : (Exec.metered x : Exec σ α).Leads Q E :=
  h.leads_metered fun m meter ends => h.spent m meter (hx ends)

/-- `Exec.closing` may close by an allowed change. -/
theorem leads_closing (h : AllowsStill s Q E) {x : Exec σ α} (hx : x.Leads Q E)
    {close : Machine σ → Machine σ} (hc : ∀ m, Q m (close m)) :
    (Exec.closing x close).Leads Q E := by
  intro m
  rcases hx m with ⟨a, mid, ha, done⟩ | ⟨e, mid, he, failed⟩
  · exact .of_ok (Exec.closing_of_ok ha close) (h.trans done (hc mid))
  · exact .of_error (Exec.closing_of_error he close) (h.before failed (hc mid))

theorem leads_lookup (h : AllowsStill s Q E) (name : String) :
    (Exec.lookup name : Exec σ Slot).Leads Q E := by
  intro m
  cases hm : m.vars.find? name with
  | some slot => exact .of_ok (Exec.lookup_of_some hm) (h.refl m)
  | none => exact .of_error (Exec.lookup_of_none hm) (h.fail m)

theorem leads_chargeNew (h : AllowsStill s Q E) (v : Value) :
    (Exec.chargeNew v : Exec σ Unit).Leads Q E := by
  unfold Exec.chargeNew
  split
  · exact h.leads_spent Meter.spent_chargeMemory
  · exact h.leads_spent Meter.spent_chargeMemory
  · exact h.leads_spent Meter.spent_chargeMemory
  · exact h.leads_pure ()

/-! ### Accesses -/

theorem leads_withContext (h : AllowsStill s Q E) {f : Context → Exec σ α}
    (hf : ∀ m c, m.host.current? = some c → (f c).LeadsFrom Q E m) :
    (Exec.withContext f).Leads Q E := by
  intro m
  cases running : m.host.current? with
  | none => exact .of_error (Exec.withContext_of_none running f) (h.fail m)
  | some c => exact (hf m c running).of_eq (Exec.withContext_of_some running f)

/-- An access to the state by the running contract, given what it leaves of the
view. -/
theorem leads_access (h : AllowsStill s Q E) {f : Namespace → Viewing α}
    (hf : ∀ m c view, m.host.current? = some c → Ends (f c.space) m.host.view view →
      Q m (m.withView view)) :
    (Exec.withContext fun c => Exec.viewing (f c.space) : Exec σ α).Leads Q E := by
  refine h.leads_withContext fun m c running => ?_
  cases hm : f c.space m.host.view with
  | ok a view =>
    have accessed := hf m c view running (.inl ⟨a, hm⟩)
    exact .of_ok (Exec.viewing_of_ok hm) accessed
  | error e view =>
    have accessed := hf m c view running (.inr ⟨e, hm⟩)
    exact .of_error (Exec.viewing_of_error hm) (h.fails accessed)

theorem leads_getState (h : AllowsStill s Q E) (key : String) :
    (Exec.getState s key).Leads Q E := by
  refine h.leads_access (f := fun space => Access.get s.entries s.limits space key)
    fun m c view running ends => ?_
  cases hk : resolveKey c.space key s.limits.maxKeyLength.toNat with
  | error e =>
    unfold Ends at ends
    rw [Access.get_of_error hk] at ends
    rcases ends with ⟨a, ends⟩ | ⟨e, ends⟩ <;> cases ends
    exact h.refl m
  | ok k =>
    have looked := h.look m k (Host.space?_of_current running (resolveKey_eq_ok hk).1)
    unfold Ends at ends
    rw [Access.get_of_ok hk] at ends
    unfold Viewing.ofExcept at ends
    rcases ends with ⟨a, ends⟩ | ⟨e, ends⟩ <;> split at ends <;> cases ends <;> exact looked

theorem leads_putState (h : AllowsStill s Q E) (key : String) (v : Value) :
    (Exec.putState s key v).Leads Q E := by
  refine h.leads_access (f := fun space => Access.set s.limits space key v)
    fun m c view running ends => ?_
  unfold Ends at ends
  rcases Access.set_cases s.limits c.space key v m.host.view with
    ⟨e, hs⟩ | ⟨k, bytes, space, free, hs⟩ <;> rw [hs] at ends <;>
    rcases ends with ⟨a, ends⟩ | ⟨e, ends⟩ <;> cases ends
  · exact h.refl m
  · exact h.write m k (.put bytes) (Host.space?_of_current running space) free

theorem leads_delState (h : AllowsStill s Q E) (key : String) :
    (Exec.delState s key).Leads Q E := by
  refine h.leads_access (f := fun space => Access.delete s.limits space key)
    fun m c view running ends => ?_
  unfold Ends at ends
  rcases Access.delete_cases s.limits c.space key m.host.view with
    ⟨e, hs⟩ | ⟨k, space, free, hs⟩ <;> rw [hs] at ends <;>
    rcases ends with ⟨a, ends⟩ | ⟨e, ends⟩ <;> cases ends
  · exact h.refl m
  · exact h.write m k .delete (Host.space?_of_current running space) free

theorem leads_told (h : AllowsStill s Q E) (f : String → ContractId → UInt64 → Value) :
    (Exec.told f : Exec σ Value).Leads Q E :=
  h.leads_withContext fun m _ _ => .of_ok rfl (h.refl m)

theorem leads_logLine (h : AllowsStill s Q E) (line : String) :
    (Exec.logLine line : Exec σ Unit).Leads Q E :=
  h.leads_withContext fun m _ _ => .of_ok rfl (h.log m line)

/-! ### Brackets -/

/-- `inFrame` makes an allowed change if what is inside does, given what the frame adds. -/
theorem leads_inFrame (h : AllowsStill s Q E) {Q' E' : Machine σ → Machine σ → Prop}
    (scope : Scope)
    (framed : ∀ {m next : Machine σ} {opened : Meter} {scope : Scope},
      Meter.enterFrame m.host.meter = .ok () opened → Q' (m.inFrame opened scope) next →
        Q m next.outFrame)
    (framedError : ∀ {m next : Machine σ} {opened : Meter} {scope : Scope},
      Meter.enterFrame m.host.meter = .ok () opened → E' (m.inFrame opened scope) next →
        E m next.outFrame)
    {x : Exec σ α} (hx : x.Leads Q' E') : (Exec.inFrame scope x).Leads Q E := by
  intro m
  unfold Exec.inFrame
  cases opening : Meter.enterFrame m.host.meter with
  | error e meter =>
    obtain ⟨-, rfl⟩ := Meter.enterFrame_eq_error opening
    exact .of_error (bind_of_error (Exec.metered_of_error opening)) (h.fail m)
  | ok _ opened =>
    have entered := bind_of_ok (f := fun _ => Exec.vars (·.pushFrame scope) >>= fun _ =>
      Exec.closing x Machine.outFrame) (Exec.metered_of_ok opening)
    rcases hx (m.inFrame opened scope) with ⟨a, next, ran, done⟩ | ⟨e, next, ran, failed⟩
    · exact .of_ok (entered.trans (Exec.closing_of_ok ran _)) (framed opening done)
    · exact .of_error (entered.trans (Exec.closing_of_error ran _)) (framedError opening failed)

/-- `nested` makes an allowed change if what is inside does, given what the level adds. -/
theorem leads_nested (h : AllowsStill s Q E)
    (levelled : ∀ {m next : Machine σ}, m.host.meter.nesting < maxNesting →
      Q (m.inLevel s) next → Q m (next.outLevel s))
    (levelledError : ∀ {m next : Machine σ}, m.host.meter.nesting < maxNesting →
      E (m.inLevel s) next → E m (next.outLevel s))
    {x : Exec σ α} (hx : x.Leads Q E) : (Evaluator.nested s x).Leads Q E := by
  intro m
  have stepped : (Exec.step >>= fun _ => x).Leads Q E :=
    h.leads_bind (h.leads_spent Meter.spent_chargeSteps) fun _ => hx
  by_cases free : m.host.meter.nesting < maxNesting
  · have entered : Evaluator.nested s x m =
        Exec.closing (Exec.step >>= fun _ => x) (Machine.outLevel s) (m.inLevel s) :=
      bind_of_ok (Exec.metered_of_ok (if_pos free))
    rcases stepped (m.inLevel s) with ⟨a, next, ran, done⟩ | ⟨e, next, ran, failed⟩
    · exact .of_ok (entered.trans (Exec.closing_of_ok ran _)) (levelled free done)
    · exact .of_error (entered.trans (Exec.closing_of_error ran _)) (levelledError free failed)
  · exact .of_error (bind_of_error (Exec.metered_of_error (if_neg free))) (h.fail m)

/-! ### Nested calls -/

section Calls

variable {Q' E' : Program → Machine σ → Machine σ → Prop}
  (calls : ∀ q, AllowsCall s Q E (Q' q) (E' q)) {x : Evaluator σ}
  (kept : x.KeepsContexts) (hx : ∀ q name args, (x.run q name args).Leads (Q' q) (E' q))

include calls kept hx

theorem leads_enter (contract : Contract) {child : Context} {m : Machine σ}
    (may : m.MayCall child) (found : m.HasFound s child.contract) :
    (x.enter s contract child).LeadsFrom Q E m := by
  rcases hx contract.program EntryPoint.invoke.name child.entryArgs (m.entering s child) with
    ⟨v, next, hv, ran⟩ | ⟨e, next, he, failed⟩
  · have back := kept.leaving (.inl ⟨v, hv⟩)
    exact .of_ok (Evaluator.enter_of_ok hv)
      ((calls _).returned m next child v.truthy may found back ran)
  · have back := kept.leaving (.inr ⟨e, he⟩)
    exact .of_error (Evaluator.enter_of_error he)
      ((calls _).broken m next child may found back failed)

variable (h : AllowsStill s Q E)

include h

theorem leads_callFound {callee : ContractId} {child? : Option Context} {m : Machine σ}
    (may : ∀ child, child? = some child → m.MayCall child ∧ child.contract = callee) :
    (x.callFound s callee child?).LeadsFrom Q E m := by
  cases hr : s.resolve callee m.outside with
  | error e outside =>
    have resolved := h.resolve m callee outside (.inr ⟨e, hr⟩)
    exact .of_error (Evaluator.callFound_of_error child? hr) (h.fails resolved)
  | ok contract outside =>
    have resolved := h.resolve m callee outside (.inl ⟨contract, hr⟩)
    cases child? with
    | none =>
      obtain ⟨e, failed⟩ := Evaluator.callFound_none_of_ok (x := x) hr
      exact .of_error failed (h.fails resolved)
    | some child =>
      obtain ⟨enters, rfl⟩ := may child rfl
      have found := Evaluator.callFound_of_ok (x := x) child hr
      by_cases declared : contract.declares .invoke = true
      · rw [if_pos declared] at found
        have enters : (m.withOutside outside).MayCall child := enters
        have there : (m.withOutside outside).HasFound s child.contract := ⟨_, _, hr⟩
        rcases leads_enter calls kept hx contract enters there with
          ⟨v, next, hv, ran⟩ | ⟨e, next, he, failed⟩
        · exact .of_ok (found.trans hv) (h.trans resolved ran)
        · exact .of_error (found.trans he) (h.after resolved failed)
      · rw [if_neg declared] at found
        exact .of_error found (h.fails resolved)

theorem leads_callContract (target method : String) (args : Value) :
    (x.callContract s target method args).Leads Q E := by
  intro m
  have called := x.callContract_eq s target method args m
  cases hc : ContractId.ofHex target with
  | error f =>
    rw [hc] at called
    exact .of_error called (h.fail m)
  | ok callee =>
    rw [hc] at called
    dsimp only at called
    by_cases again : m.host.contexts.any (·.contract = callee) = true
    · rw [if_pos again] at called
      exact .of_error called (h.fail m)
    · rw [if_neg again] at called
      exact (leads_callFound calls kept hx h fun _ => Machine.mayCall_of_fresh again).of_eq called

end Calls

end AllowsStill

namespace AllowsPlain

variable {s : Surroundings σ} {Q E : Machine σ → Machine σ → Prop}

theorem leads_vars (h : AllowsPlain s Q E) (f : Variables → Variables) :
    (Exec.vars f : Exec σ Unit).Leads Q E :=
  fun m => .of_ok rfl (h.vars m (f m.vars))

theorem leads_change (h : AllowsPlain s Q E) (name : String) (held : Value) (x : Value.Change) :
    (Exec.change name held x : Exec σ Unit).Leads Q E := by
  intro m
  cases changed : x held with
  | ok _ v => exact .of_ok (Exec.change_of_ok changed name) (h.vars m _)
  | error f v => exact .of_error (Exec.change_of_error changed name) (h.fails (h.vars m _))

theorem leads_store (h : AllowsPlain s Q E) (root : String) (keys : List PathKey) (v : Value) :
    (Evaluator.store root keys v : Exec σ Unit).Leads Q E := by
  refine h.leads_bind (h.leads_lookup root) fun slot => ?_
  split
  · exact h.leads_throw _
  · exact h.leads_change _ _ _

theorem leads_inScope (h : AllowsPlain s Q E) {x : Exec σ α} (hx : x.Leads Q E) :
    (Exec.inScope x).Leads Q E :=
  h.leads_bind (h.leads_vars _) fun _ => h.leads_closing hx fun m => h.vars m _

end AllowsPlain

namespace AllowsOwn

variable {s : Surroundings σ} {Q E : Machine σ → Machine σ → Prop}

theorem leads_inFrame (h : AllowsOwn s Q E) (scope : Scope) {x : Exec σ α} (hx : x.Leads Q E) :
    (Exec.inFrame scope x).Leads Q E :=
  h.toAllowsPlain.leads_inFrame scope h.framed h.framedError hx

theorem leads_nested (h : AllowsOwn s Q E) {x : Exec σ α} (hx : x.Leads Q E) :
    (Evaluator.nested s x).Leads Q E := by
  have opened : ∀ m : Machine σ, Q m (m.inLevel s) := fun m =>
    h.trans (h.meter m { m.host.meter with nesting := m.host.meter.nesting + 1 }
      ⟨⟨rfl, rfl, id⟩, rfl⟩) (h.entered _)
  have closed : ∀ m : Machine σ, Q m (m.outLevel s) := fun m =>
    h.trans (h.meter m _ (Meter.charged_exitNesting _)) (h.left _)
  exact h.toAllowsPlain.leads_nested (fun _ ran => h.trans (opened _) (h.trans ran (closed _)))
    (fun _ failed => h.after (opened _) (h.before failed (closed _))) hx

end AllowsOwn

/-! ### All runs -/

section

variable {g : Regime} {s : Surroundings σ}

/-- `AllowsStill` for the parts is enough for expressions that call nothing. -/
theorem AllowsStill.exprs {Q E : Program → Phrase → Machine σ → Machine σ → Prop}
    (h : ∀ p k, AllowsStill s (Q p k) (E p k)) (value : ∀ v, g.value v) (fresh : ∀ v, g.fresh v) :
    ParametricExprs g fun p k _ _ (x : Exec σ _) (_ : Exec σ _) => x.Leads (Q p k) (E p k) where
  null := value _
  bool _ := value _
  int _ := value _
  part _ _ := value _
  making := Regime.making_of_forall fresh
  pure p k _ _ a _ := (h p k).leads_pure a
  bind hx hf := (h _ _).leads_bind hx fun a => hf a (Holding.each_of_forall value a)
  fault p _ _ f := (h p _).leads_throw (.script f)
  steps p _ := (h p _).leads_spent Meter.spent_chargeSteps
  made p v _ := (h p _).leads_bind ((h p _).leads_chargeNew v) fun _ => (h p _).leads_pure v
  lookup p := (h p _).leads_lookup

/-- `AllowsPhrases` for the parts is enough for all that is put together from them. -/
theorem AllowsPhrases.parametric {Q E : Program → Machine σ → Machine σ → Prop}
    (h : AllowsPhrases g s Q E) :
    ParametricPhrases g s s fun p _ _ _ x _ => Exec.Leads (Q p) (E p) x where
  toParametricExprs := AllowsStill.exprs (fun p _ => (h.plain p).toAllowsStill) h.value h.fresh
  widen := id
  missing p _ := (h.plain p).leads_throw _
  declareGlobal p _ _ _ := (h.plain p).leads_vars _
  declare p _ _ _ := (h.plain p).leads_vars _
  store root keys v _ _ := (h.plain _).leads_store root keys v
  inScope hx := (h.plain _).leads_inScope hx
  builtin f act found := .modify fun m => h.builtin m f act found
  hosted f act found := .modify fun m => h.hosted m f act found
  memory _ _ := (h.plain _).leads_spent Meter.spent_chargeMemory
  getState key _ := (h.plain _).leads_getState key
  putState key v _ _ := (h.plain _).leads_putState key v
  delState key _ := (h.plain _).leads_delState key
  told f _ _ := (h.plain _).leads_told f
  logLine line _ := (h.plain _).leads_logLine line

/-- `AllowsParts` likewise, with levels and frames. -/
theorem AllowsParts.parametric {Q E : Program → Machine σ → Machine σ → Prop}
    (h : AllowsParts g s Q E) :
    ParametricParts g s s fun p _ _ _ x _ => Exec.Leads (Q p) (E p) x where
  toParametricPhrases := h.toAllowsPhrases.parametric
  inFrame _ _ _ _ _ hx := (h.own _).leads_inFrame _ hx
  ground p _ _ := (h.own p).leads_throw _
  turns p _ _ := (h.own p).leads_throw _
  nested hx := (h.own _).leads_nested hx

namespace AllowsLevels

variable {Q E : Nat → Program → Machine σ → Machine σ → Prop}

theorem parametric (h : AllowsLevels g s Q E) :
    ParametricLevels g s s fun n p _ _ _ x _ => Exec.Leads (Q n p) (E n p) x where
  parts n := (h.parts n).parametric
  rise leads := leads.mono h.rise h.riseError
  callContract {n p} _ _ _ kept _ hx target method args _ :=
    AllowsStill.leads_callContract (h.call n p) kept
      (fun q name args => hx ((h.parts n).admits q) name args
        (Holding.each_of_forall (h.parts n).value args))
      ((h.parts (n + 1)).plain p).toAllowsStill target method args

/-- `runEntry` makes a change that is allowed on the topmost level. -/
theorem runEntry (h : AllowsLevels g s Q E) (contract : Contract) (context : Context) :
    (runEntry s contract context).Leads (Q maxNesting contract.program)
      (E maxNesting contract.program) :=
  h.parametric.runEntry contract ((h.parts 0).admits _) context
    (Holding.each_of_forall (h.parts 0).value _)

end AllowsLevels

namespace Allows

variable {Q E : Program → Machine σ → Machine σ → Prop}

theorem levels (h : Allows g s Q E) : AllowsLevels g s (fun _ => Q) fun _ => E where
  parts _ := h.toAllowsParts
  rise allowed := allowed
  riseError allowed := allowed
  call _ _ _ :=
    ⟨fun m next child truthy may _ => h.returned m next child truthy may,
      fun m next child may _ => h.broken m next child may⟩

theorem leads_callContract (h : Allows g s Q E) {x : Evaluator σ} {p : Program}
    (kept : x.KeepsContexts) (hx : ∀ q name args, (x.run q name args).Leads (Q q) (E q))
    (target method : String) (args : Value) :
    (x.callContract s target method args).Leads (Q p) (E p) :=
  AllowsStill.leads_callContract (h.levels.call 0 p) kept hx (h.plain p).toAllowsStill target method
    args

theorem run_ofLevels (h : Allows g s Q E) (level : Nat) (p : Program) (name : String)
    (args : List Value) : ((Evaluator.ofLevels s level).run p name args).Leads (Q p) (E p) :=
  h.toAllowsParts.parametric.run (h.levels.parametric.ofLevels level) (h.admits p) name args
    (Holding.each_of_forall h.value args)

theorem run (h : Allows g s Q E) (p : Program) (name : String) (args : List Value) :
    ((Evaluator.whole s).run p name args).Leads (Q p) (E p) :=
  h.run_ofLevels maxNesting p name args

theorem runEntry (h : Allows g s Q E) (contract : Contract) (context : Context) :
    (runEntry s contract context).Leads (Q contract.program) (E contract.program) :=
  h.levels.runEntry contract context

end Allows

end

end LedgerScript
