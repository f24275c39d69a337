import LedgerScript.Machine.Evaluator
import LedgerScript.Proofs.Machine.Changes

/-!
# How contracts conduct themselves

Whatever contracts do, their host stays sound (`Host.Sound`): what it remembers
of committed state is true, every pending write is under a name that is not
reserved and in the namespace of a contract that has run, and the frames stay
within their ceiling.  Main statement: `execute_sound`.
-/

namespace LedgerScript

variable {σ : Type}

namespace Host

/-- The running contract is among those that `executed` has. -/
def Entered (h : Host) : Prop := ∀ space, h.space? = some space → space ∈ h.executed

/-- What holds of the `Host` of every call. -/
structure Sound (entries : Committed) (h : Host) : Prop where
  reads : h.view.reads.Holds entries
  running : h.Entered
  writes : ∀ (key : StateKey) (op : WriteOp), h.view.writes[key]? = some op →
    key.space ∈ h.executed ∧ key.reserved = false
  depth : h.meter.maxDepth ≤ h.meter.budget.maxDepth

/-- What a run leaves of the `Host` that it began with. -/
structure Conduct (entries : Committed) (a b : Host) : Prop where
  contexts : b.contexts = a.contexts
  budget : b.meter.budget = a.meter.budget
  readOnly : b.view.readOnly = a.view.readOnly
  executed : ∀ space, space ∈ a.executed → space ∈ b.executed
  sound : a.Sound entries → b.Sound entries

variable {entries : Committed} {a b c : Host}

theorem Conduct.refl (a : Host) : a.Conduct entries a := ⟨rfl, rfl, rfl, fun _ => id, id⟩

theorem Conduct.trans (hab : a.Conduct entries b) (hbc : b.Conduct entries c) :
    a.Conduct entries c where
  contexts := hbc.contexts.trans hab.contexts
  budget := hbc.budget.trans hab.budget
  readOnly := hbc.readOnly.trans hab.readOnly
  executed space mem := hbc.executed space (hab.executed space mem)
  sound h := hbc.sound (hab.sound h)

theorem Conduct.entered (h : a.Conduct entries b) (running : a.Entered) : b.Entered := by
  intro space here
  rw [space?_of_contexts h.contexts] at here
  exact h.executed space (running space here)

/-- `Conduct` for a change of the meter. -/
theorem conduct_meter {next : Meter} (h : a.meter.Follows next) :
    a.Conduct entries { a with meter := next } where
  contexts := rfl
  budget := h.budget
  readOnly := rfl
  executed _ := id
  sound sound := ⟨sound.reads, sound.running, sound.writes, h.maxDepth sound.depth⟩

/-- `Conduct` for a look at committed state. -/
theorem conduct_look (a : Host) (key : StateKey) :
    a.Conduct entries { a with view := a.view.look entries key } where
  contexts := rfl
  budget := rfl
  readOnly := View.readOnly_look a.view entries key
  executed _ := id
  sound sound := by
    refine ⟨sound.reads.look key, sound.running, fun k op h => ?_, sound.depth⟩
    change (a.view.look entries key).writes[k]? = some op at h
    rw [View.writes_look] at h
    exact sound.writes k op h

/-- `Conduct` for a write of the running contract. -/
theorem conduct_write {key : StateKey} (op : WriteOp) (space : a.space? = some key.space)
    (free : key.reserved = false) :
    a.Conduct entries
      { a with view := { a.view with writes := a.view.writes.insert key op } } where
  contexts := rfl
  budget := rfl
  readOnly := rfl
  executed _ := id
  sound sound := by
    refine ⟨sound.reads, sound.running, fun k o h => ?_, sound.depth⟩
    change (a.view.writes.insert key op)[k]? = some o at h
    rw [Std.ExtTreeMap.getElem?_insert] at h
    split at h
    · rename_i same
      rw [← Std.compare_eq_iff_eq.1 same]
      exact ⟨sound.running _ space, free⟩
    · exact sound.writes k o h

/-! ### Calls -/

theorem entered_entering (a : Host) (child : Context) : (a.entering child).Entered := by
  intro space here
  cases here
  exact Std.ExtTreeSet.mem_insert_self

theorem entered_new (meter : Meter) (view : View) (context : Context) :
    (Host.new meter view context).Entered := by
  intro space here
  cases here
  simp [Host.new]

theorem Sound.entering (h : a.Sound entries) (child : Context) :
    (a.entering child).Sound entries where
  reads := h.reads
  running := entered_entering a child
  writes key op hw :=
    let ⟨mem, free⟩ := h.writes key op hw
    ⟨Std.ExtTreeSet.mem_insert.2 (.inr mem), free⟩
  depth := h.depth

variable {child : Context}

/-- What is `Conduct` for a called contract is so for its caller, once it is `returning`. -/
theorem Conduct.returning (back : b.returning.contexts = a.contexts)
    (h : (a.entering child).Conduct entries b) : a.Conduct entries b.returning where
  contexts := back
  budget := h.budget
  readOnly := h.readOnly
  executed space mem := h.executed space (Std.ExtTreeSet.mem_insert.2 (.inr mem))
  sound sound := by
    have left := h.sound (sound.entering child)
    refine ⟨left.reads, fun space here => ?_, left.writes, left.depth⟩
    rw [space?_of_contexts back] at here
    exact h.executed space (Std.ExtTreeSet.mem_insert.2 (.inr (sound.running space here)))

/-- It is so, too, if `View.rollback` takes back what the called contract wrote. -/
theorem Conduct.rollback (back : b.returning.contexts = a.contexts)
    (h : (a.entering child).Conduct entries b) :
    a.Conduct entries
      { b.returning with view := b.returning.view.rollback a.view.writes } where
  contexts := back
  budget := h.budget
  readOnly := h.readOnly
  executed := (h.returning back).executed
  sound sound := by
    have left := (h.returning back).sound sound
    refine ⟨left.reads, left.running, fun key op written => ?_, left.depth⟩
    obtain ⟨mem, free⟩ := sound.writes key op written
    exact ⟨(h.returning back).executed key.space mem, free⟩

end Host

/-! ## Runs -/

/-- The change from one machine to another is `Host.Conduct`. -/
def Machine.Conducts (entries : Committed) (a b : Machine σ) : Prop :=
  a.host.Conduct entries b.host

theorem own_conduct (s : Surroundings σ) :
    AllowsOwn s (Machine.Conducts s.entries) (Machine.Conducts s.entries) where
  refl m := .refl m.host
  trans := .trans
  fail m := .refl m.host
  after := .trans
  before := .trans
  vars m _ := .refl m.host
  meter _ _ charged := Host.conduct_meter charged.toFollows
  framed opening done :=
    ((Host.conduct_meter (Meter.follows_enterFrame (.inl ⟨_, opening⟩))).trans done).trans
      (Host.conduct_meter (Meter.follows_exitFrame _))
  framedError opening failed :=
    ((Host.conduct_meter (Meter.follows_enterFrame (.inl ⟨_, opening⟩))).trans failed).trans
      (Host.conduct_meter (Meter.follows_exitFrame _))
  look m key _ := Host.conduct_look m.host key
  write _ _ op space free := Host.conduct_write op space free
  log _ _ := ⟨rfl, rfl, rfl, fun _ => id, fun h => ⟨h.reads, h.running, h.writes, h.depth⟩⟩
  entered m := .refl m.host
  left m := .refl m.host
  resolve m _ _ _ := .refl m.host

theorem allows_conduct (s : Surroundings σ) :
    Allows .lax s (fun _ => Machine.Conducts s.entries) (fun _ => Machine.Conducts s.entries) where
  value _ := trivial
  admits := Regime.admits_lax
  own _ := own_conduct s
  builtin m _ _ _ := .refl m.host
  hosted m _ _ _ := .refl m.host
  returned m next child truthy _ back h := by
    cases truthy with
    | true => exact h.returning back
    | false => exact h.rollback back
  broken _ _ _ _ back h := h.returning back

/-- `Host.new` is `Sound`. -/
theorem Host.sound_new (entries : Committed) (budget : Budget) (interval : UInt64)
    (readOnly : Bool) (context : Context) :
    (Host.new (Meter.new budget interval) { readOnly := readOnly } context).Sound entries where
  reads := ReadSet.holds_empty entries
  running := entered_new _ _ _
  writes key op h := by simp [Host.new] at h
  depth := UInt16.zero_le

/-- **Contracts conduct themselves.**  A run of `execute` that begins with a fresh view
has seen only what is committed, writes only under names that are not `reserved` and only
into namespaces that it has `executed`, keeps within the `maxDepth` of its budget, and
leaves the view as writable as it was. -/
theorem execute_sound (s : Surroundings σ) (contract : Contract) (context : Context)
    (readOnly : Bool) (budget : Budget) (interval : UInt64) (outside : σ) :
    let outcome := (execute s contract context { readOnly := readOnly } budget interval outside).1
    outcome.view.readOnly = readOnly ∧ outcome.view.reads.Holds s.entries ∧
      context.space ∈ outcome.executed ∧
      (∀ (key : StateKey) (op : WriteOp), outcome.view.writes[key]? = some op →
        key.space ∈ outcome.executed ∧ key.reserved = false) ∧
      outcome.usage.depth ≤ budget.maxDepth := by
  have begun := Host.sound_new s.entries budget interval readOnly context
  have conduct := ((allows_conduct s).runEntry contract context).ends (Exec.ends_finish _
    (Machine.start (Host.new (Meter.new budget interval) { readOnly := readOnly } context) outside))
  have sound := conduct.sound begun
  have depth := sound.depth
  rw [conduct.budget] at depth
  exact ⟨conduct.readOnly, sound.reads, conduct.executed _ (begun.running _ rfl), sound.writes,
    depth⟩

end LedgerScript
