import LedgerScript.Proofs.Machine.Changes

/-!
# State functions

Three of the host functions read and write state.  When one of them is called, it
acts in the namespace of the running contract, and nowhere else
(`Evaluator.ActsIn`).  Main statement: `Evaluator.actsIn`.
-/

namespace LedgerScript

variable {σ : Type}

/-- The function reads or writes state. -/
def HostFunction.stateful : HostFunction → Bool
  | getState | putState | delState => true
  | _ => false

namespace AllowsPlain

variable {s : Surroundings σ} {Q E : Machine σ → Machine σ → Prop}

theorem leads_wantText (h : AllowsPlain s Q E) (f : HostFunction) (v : Value) :
    (Evaluator.wantText f v : Exec σ String).Leads Q E := by
  unfold Evaluator.wantText
  split
  · exact h.leads_pure _
  · exact h.leads_throw _

/-- `callHost` of a `stateful` function changes what a contract may change by itself. -/
theorem leads_callHost (h : AllowsPlain s Q E) {x : Evaluator σ} {f : HostFunction}
    (stateful : f.stateful = true) (args : List Value) : (x.callHost s f args).Leads Q E := by
  rw [Evaluator.callHost_eq]
  refine h.leads_bind (h.leads_spent Meter.spent_chargeSteps) fun _ => ?_
  fun_cases Evaluator.hostBody s x f args
  case case1 key =>
    exact h.leads_bind (h.leads_wantText _ _) fun text => h.leads_bind (h.leads_getState text)
      fun v => h.leads_bind (h.leads_spent Meter.spent_chargeMemory) fun _ => h.leads_pure v
  case case2 key v =>
    exact h.leads_bind (h.leads_wantText _ _) fun text => h.leads_bind (h.leads_putState text v)
      fun _ => h.leads_bind (h.leads_spent Meter.spent_chargeMemory) fun _ => h.leads_pure _
  case case3 key =>
    exact h.leads_bind (h.leads_wantText _ _) fun text => h.leads_bind (h.leads_delState text)
      fun _ => h.leads_pure _
  case case9 => exact h.leads_throw _
  all_goals cases stateful

end AllowsPlain

namespace Evaluator

/-- What a state function does in a namespace once its cost is counted. -/
def accessIn (s : Surroundings σ) (space : Namespace) (f : HostFunction) (args : List Value) :
    Exec σ Value :=
  match f, args with
  | .getState, [key] => do
    let key ← wantText f key
    let v ← Exec.viewing (Access.get s.entries s.limits space key)
    Exec.metered (Meter.chargeMemory v.size)
    return v
  | .putState, [key, v] => do
    let key ← wantText f key
    let size ← Exec.viewing (Access.set s.limits space key v)
    Exec.metered (Meter.chargeMemory size)
    return .bool true
  | .delState, [key] => do
    let key ← wantText f key
    Exec.viewing (Access.delete s.limits space key)
    return .bool true
  | f, args => Exec.fault (.wrongArgumentCount f.name (f.arity?.getD 0) args.length)

/-- A state function that is called now acts in a namespace: it does there what it
does, and neither what is pending nor what is remembered changes anywhere else. -/
structure ActsIn (s : Surroundings σ) (x : Evaluator σ) (f : HostFunction) (args : List Value)
    (space : Namespace) (m : Machine σ) : Prop where
  does : x.callHost s f args m =
    (Exec.metered (Meter.chargeSteps f.cost) >>= fun _ => accessIn s space f args) m
  contexts : ∀ next, Ends (x.callHost s f args) m next → next.host.contexts = m.host.contexts
  elsewhere : ∀ next, Ends (x.callHost s f args) m next → ∀ key : StateKey, key.space ≠ space →
    next.host.view.writes[key]? = m.host.view.writes[key]? ∧
      next.host.view.reads[key]? = m.host.view.reads[key]?

/-- The changes that the running contract makes by itself in its namespace. -/
structure Inside (a b : Machine σ) : Prop where
  contexts : b.host.contexts = a.host.contexts
  view : ∀ key : StateKey, a.host.space? ≠ some key.space →
    b.host.view.writes[key]? = a.host.view.writes[key]? ∧
      b.host.view.reads[key]? = a.host.view.reads[key]?

theorem Inside.trans {a b c : Machine σ} (hab : Inside a b) (hbc : Inside b c) : Inside a c where
  contexts := hbc.contexts.trans hab.contexts
  view key other := by
    obtain ⟨writes, reads⟩ := hab.view key other
    rw [← Host.space?_of_contexts hab.contexts] at other
    obtain ⟨writes', reads'⟩ := hbc.view key other
    exact ⟨writes'.trans writes, reads'.trans reads⟩

theorem Inside.same {a b : Machine σ} (contexts : b.host.contexts = a.host.contexts)
    (view : b.host.view = a.host.view) : Inside a b :=
  ⟨contexts, fun key _ => by rw [view]; exact ⟨rfl, rfl⟩⟩

theorem Inside.look (s : Surroundings σ) (m : Machine σ) {key : StateKey}
    (own : m.host.space? = some key.space) :
    Inside m (m.withView (m.host.view.look s.entries key)) where
  contexts := rfl
  view other apart := by
    have unlike : compare key other ≠ .eq := fun same =>
      apart (Std.compare_eq_iff_eq.1 same ▸ own)
    refine ⟨congrArg (·[other]?) (View.writes_look m.host.view s.entries key), ?_⟩
    change (m.host.view.look s.entries key).reads[other]? = _
    rcases m.host.view.look_cases s.entries key with same | recorded
    · rw [same]
    · rw [recorded]
      unfold View.record
      rw [Std.ExtTreeMap.getElem?_insertIfNew, if_neg fun both => unlike both.1]

theorem Inside.write (m : Machine σ) {key : StateKey} (op : WriteOp)
    (own : m.host.space? = some key.space) :
    Inside m (m.withView { m.host.view with writes := m.host.view.writes.insert key op }) where
  contexts := rfl
  view other apart := by
    have unlike : compare key other ≠ .eq := fun same =>
      apart (Std.compare_eq_iff_eq.1 same ▸ own)
    refine ⟨?_, rfl⟩
    change (m.host.view.writes.insert key op)[other]? = _
    rw [Std.ExtTreeMap.getElem?_insert, if_neg unlike]

/-- What a contract does by itself goes on `Inside` its namespace. -/
theorem own_inside (s : Surroundings σ) : AllowsOwn s Inside Inside where
  refl _ := .same rfl rfl
  trans := .trans
  fail _ := .same rfl rfl
  after := .trans
  before := .trans
  vars _ _ := .same rfl rfl
  meter _ _ _ := .same rfl rfl
  framed {m _ opened scope} _ done :=
    have entered : Inside m (m.inFrame opened scope) := .same rfl rfl
    (entered.trans done).trans (.same rfl rfl)
  framedError {m _ opened scope} _ failed :=
    have entered : Inside m (m.inFrame opened scope) := .same rfl rfl
    (entered.trans failed).trans (.same rfl rfl)
  look m _ own := .look s m own
  write m _ op own _ := .write m op own
  log _ _ := .same rfl rfl
  entered _ := .same rfl rfl
  left _ := .same rfl rfl
  resolve _ _ _ _ := .same rfl rfl

variable {s : Surroundings σ} {x : Evaluator σ} {f : HostFunction} {m : Machine σ}

/-- `wantText` leaves the machine to the rest. -/
theorem bind_wantText_congr {v : Value} {g h : String → Exec σ Value}
    (same : ∀ text, g text m = h text m) : (wantText f v >>= g) m = (wantText f v >>= h) m := by
  unfold wantText
  cases v.str? with
  | none => rfl
  | some text => exact same text

theorem hostBody_eq_accessIn {c : Context} (running : m.host.current? = some c)
    (stateful : f.stateful = true) (args : List Value) :
    x.hostBody s f args m = accessIn s c.space f args m := by
  fun_cases hostBody s x f args
  case case1 key =>
    exact bind_wantText_congr fun text => bind_congr_left (Exec.withContext_of_some running _)
  case case2 key v =>
    exact bind_wantText_congr fun text => bind_congr_left (Exec.withContext_of_some running _)
  case case3 key =>
    exact bind_wantText_congr fun text => bind_congr_left (Exec.withContext_of_some running _)
  case case9 =>
    unfold accessIn
    simp only
  all_goals cases stateful

/-- A state function `ActsIn` the namespace of the running contract, whatever evaluates
its program. -/
theorem actsIn {c : Context} (running : m.host.current? = some c) (stateful : f.stateful = true)
    (args : List Value) : x.ActsIn s f args c.space m where
  does := by
    rw [callHost_eq]
    cases charged : Meter.chargeSteps f.cost m.host.meter with
    | error e meter =>
      rw [bind_of_error (Exec.metered_of_error charged),
        bind_of_error (Exec.metered_of_error charged)]
    | ok _ meter =>
      rw [bind_of_ok (Exec.metered_of_ok charged), bind_of_ok (Exec.metered_of_ok charged)]
      have running : (m.withMeter meter).host.current? = some c := running
      exact hostBody_eq_accessIn running stateful args
  contexts _ ends := (((own_inside s).leads_callHost stateful args).ends ends).contexts
  elsewhere _ ends key apart := by
    refine (((own_inside s).leads_callHost stateful args).ends ends).view key fun here => ?_
    rw [Host.space?_of_current running rfl] at here
    exact apart (Option.some.inj here).symm

end Evaluator

end LedgerScript
