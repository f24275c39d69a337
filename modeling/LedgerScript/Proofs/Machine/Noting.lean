import LedgerScript.Proofs.Machine.NestedCall
import LedgerScript.Proofs.Machine.Parametricity

/-!
# Watchers

A watcher keeps notes beside the outside state (`Surroundings.noting`), and the
run that it watches goes as if nobody did.  Main statement: `execute_noting`.
-/

namespace LedgerScript

variable {σ ν α β : Type}

/-- The surroundings with one more watcher, who keeps notes of every event. -/
def Surroundings.noting (s : Surroundings σ) (note : Event → Variables → Host → ν → ν) :
    Surroundings (σ × ν) where
  entries := s.entries
  limits := s.limits
  resolve id := fun o =>
    match s.resolve id o.1 with
    | .ok contract outside => .ok contract (outside, o.2)
    | .error e outside => .error e (outside, o.2)
  watch event vars host := fun o => (s.watch event vars host o.1, note event vars host o.2)

/-- `resolve` changes no notes. -/
theorem Surroundings.notes_of_resolve {s : Surroundings σ}
    {note : Event → Variables → Host → ν → ν} {id : ContractId} {before after : σ × ν}
    (h : Ends ((s.noting note).resolve id) before after) : after.2 = before.2 := by
  unfold Ends Surroundings.noting at h
  dsimp only at h
  cases hr : s.resolve id before.1 <;> rw [hr] at h <;>
    rcases h with ⟨a, h⟩ | ⟨e, h⟩ <;> cases h <;> rfl

/-- A machine with the notes of its watcher. -/
def Machine.noted (m : Machine σ) (notes : ν) : Machine (σ × ν) :=
  ⟨m.vars, m.host, (m.outside, notes)⟩

theorem Machine.vars_noted (m : Machine σ) (notes : ν) : (m.noted notes).vars = m.vars := rfl

theorem Machine.host_noted (m : Machine σ) (notes : ν) : (m.noted notes).host = m.host := rfl

/-- How a run ended, with the notes of its watcher. -/
def Exec.ending (r : EStateM.Result ContractError (Machine σ) α) (notes : ν) :
    EStateM.Result ContractError (Machine (σ × ν)) α :=
  match r with
  | .ok a m => .ok a (m.noted notes)
  | .error e m => .error e (m.noted notes)

/-- `y` does what `x` does, and keeps notes. -/
def Exec.Noted (ν : Type) (x : Exec σ α) (y : Exec (σ × ν) α) : Prop :=
  ∀ (m : Machine σ) (notes : ν), ∃ later : ν, y (m.noted notes) = Exec.ending (x m) later

namespace Exec.Noted

theorem pure (a : α) : Noted ν (pure a : Exec σ α) (pure a) := fun _ notes => ⟨notes, rfl⟩

theorem throw (e : ContractError) : Noted ν (throw e : Exec σ α) (throw e) :=
  fun _ notes => ⟨notes, rfl⟩

theorem bind {x : Exec σ α} {y : Exec (σ × ν) α} {f : α → Exec σ β} {g : α → Exec (σ × ν) β}
    (hxy : Noted ν x y) (hfg : ∀ a, Noted ν (f a) (g a)) : Noted ν (x >>= f) (y >>= g) := by
  intro m notes
  obtain ⟨mid, hy⟩ := hxy m notes
  cases hx : x m with
  | error e next =>
    rw [hx] at hy
    rw [bind_of_error hx, bind_of_error hy]
    exact ⟨mid, rfl⟩
  | ok a next =>
    rw [hx] at hy
    rw [bind_of_ok hx, bind_of_ok hy]
    exact hfg a next mid

theorem metered (x : Metered α) : Noted ν (Exec.metered x : Exec σ α) (Exec.metered x) := by
  intro m notes
  refine ⟨notes, ?_⟩
  unfold Exec.metered
  rw [Machine.host_noted]
  cases x m.host.meter <;> rfl

theorem vars (f : Variables → Variables) : Noted ν (Exec.vars f : Exec σ Unit) (Exec.vars f) :=
  fun _ notes => ⟨notes, rfl⟩

theorem lookup (name : String) : Noted ν (Exec.lookup name : Exec σ Slot) (Exec.lookup name) := by
  intro m notes
  refine ⟨notes, ?_⟩
  unfold Exec.lookup
  rw [Machine.vars_noted]
  cases m.vars.find? name <;> rfl

/-- `Noted` for a part that is closed in any case, by a change that the notes follow. -/
theorem closing {x : Exec σ α} {y : Exec (σ × ν) α} {close : Machine σ → Machine σ}
    {close' : Machine (σ × ν) → Machine (σ × ν)} (hxy : Noted ν x y)
    (hc : ∀ m notes, ∃ later : ν, close' (m.noted notes) = (close m).noted later) :
    Noted ν (Exec.closing x close) (Exec.closing y close') := by
  intro m notes
  obtain ⟨mid, hy⟩ := hxy m notes
  unfold Exec.closing
  rw [hy]
  cases x m with
  | ok a next =>
    obtain ⟨later, closed⟩ := hc next mid
    exact ⟨later, congrArg (EStateM.Result.ok a) closed⟩
  | error e next =>
    obtain ⟨later, closed⟩ := hc next mid
    exact ⟨later, congrArg (EStateM.Result.error e) closed⟩

theorem viewing (x : Viewing α) : Noted ν (Exec.viewing x : Exec σ α) (Exec.viewing x) := by
  intro m notes
  refine ⟨notes, ?_⟩
  unfold Exec.viewing
  rw [Machine.host_noted]
  cases x m.host.view <;> rfl

theorem withContext {f : Context → Exec σ α} {g : Context → Exec (σ × ν) α}
    (hfg : ∀ c, Noted ν (f c) (g c)) : Noted ν (Exec.withContext f) (Exec.withContext g) := by
  refine bind (fun m notes => ⟨notes, ?_⟩) hfg
  unfold Exec.current
  rw [Machine.host_noted]
  cases m.host.current? <;> rfl

theorem change (name : String) (held : Value) (x : Value.Change) :
    Noted ν (Exec.change name held x : Exec σ Unit) (Exec.change name held x) := by
  intro m notes
  refine ⟨notes, ?_⟩
  unfold Exec.change
  cases x held <;> rfl

theorem store (root : String) (keys : List PathKey) (v : Value) :
    Noted ν (Evaluator.store root keys v : Exec σ Unit) (Evaluator.store root keys v) := by
  refine bind (lookup root) fun slot => ?_
  split
  · exact throw _
  · exact change root slot.value _

/-! ### Nested calls -/

variable {s : Surroundings σ} {note : Event → Variables → Host → ν → ν}

theorem resolve_of_ok {id : ContractId} {m : Machine σ} {notes : ν} {contract : Contract}
    {outside : σ} (h : s.resolve id m.outside = .ok contract outside) :
    (s.noting note).resolve id (m.noted notes).outside = .ok contract (outside, notes) := by
  unfold Surroundings.noting Machine.noted
  dsimp only
  rw [h]

theorem resolve_of_error {id : ContractId} {m : Machine σ} {notes : ν} {e : ContractError}
    {outside : σ} (h : s.resolve id m.outside = .error e outside) :
    (s.noting note).resolve id (m.noted notes).outside = .error e (outside, notes) := by
  unfold Surroundings.noting Machine.noted
  dsimp only
  rw [h]

theorem enter {x : Evaluator σ} {y : Evaluator (σ × ν)}
    (hxy : ∀ p name args, Noted ν (x.run p name args) (y.run p name args)) (contract : Contract)
    (child : Context) :
    Noted ν (x.enter s contract child) (y.enter (s.noting note) contract child) := by
  intro m notes
  have entering : (m.noted notes).entering (s.noting note) child =
      (m.entering s child).noted (note .called {} (m.host.entering child) notes) := rfl
  obtain ⟨mid, ran⟩ := hxy contract.program EntryPoint.invoke.name child.entryArgs
    (m.entering s child) (note .called {} (m.host.entering child) notes)
  unfold Evaluator.enter
  rw [entering, ran]
  cases x.run contract.program EntryPoint.invoke.name child.entryArgs (m.entering s child) with
  | error e next => exact ⟨mid, rfl⟩
  | ok v next =>
    refine ⟨note (.returned child.contract v.truthy) m.vars next.host.returning mid, ?_⟩
    refine congrArg (EStateM.Result.ok v) ?_
    unfold Machine.resume
    cases v.truthy <;> rfl

theorem callFound {x : Evaluator σ} {y : Evaluator (σ × ν)}
    (hxy : ∀ p name args, Noted ν (x.run p name args) (y.run p name args))
    (callee : ContractId) (child? : Option Context) :
    Noted ν (x.callFound s callee child?) (y.callFound (s.noting note) callee child?) := by
  intro m notes
  unfold Evaluator.callFound
  cases hr : s.resolve callee m.outside with
  | error e outside =>
    rw [resolve_of_error hr]
    exact ⟨notes, rfl⟩
  | ok contract outside =>
    rw [resolve_of_ok hr]
    dsimp only
    split
    · cases child? with
      | some child => exact enter hxy contract child (m.withOutside outside) notes
      | none => exact ⟨notes, rfl⟩
    · exact ⟨notes, rfl⟩

theorem callContract {x : Evaluator σ} {y : Evaluator (σ × ν)}
    (hxy : ∀ p name args, Noted ν (x.run p name args) (y.run p name args))
    (target method : String) (args : Value) :
    Noted ν (x.callContract s target method args)
      (y.callContract (s.noting note) target method args) := by
  intro m notes
  rw [Evaluator.callContract_eq, Evaluator.callContract_eq]
  cases ContractId.ofHex target with
  | error f => exact ⟨notes, rfl⟩
  | ok callee =>
    dsimp only
    change ∃ later, (if m.host.contexts.any (·.contract = callee) then _ else _) = _
    split
    · exact ⟨notes, rfl⟩
    · exact callFound hxy callee _ m notes

/-- `finish` comes to the same whether the run is watched or not. -/
theorem finish_noted {x : Exec σ α} {y : Exec (σ × ν) α} (h : Noted ν x y) (m : Machine σ)
    (notes : ν) :
    ∃ later : ν, y.finish (m.noted notes) = ((x.finish m).1, (x.finish m).2.noted later) := by
  obtain ⟨later, ran⟩ := h m notes
  refine ⟨later, ?_⟩
  unfold Exec.finish
  rw [ran]
  cases x m <;> rfl

theorem finish {x : Exec σ α} {y : Exec (σ × ν) α} (h : Noted ν x y) (m : Machine σ) (notes : ν) :
    (x.finish m).2.host = (y.finish (m.noted notes)).2.host := by
  obtain ⟨later, ended⟩ := h.finish_noted m notes
  rw [ended]
  rfl

end Exec.Noted

/-- The relation `Noted` is parametric: every run goes the same when notes are kept of it. -/
theorem parametric_noted (s : Surroundings σ) (note : Event → Variables → Host → ν → ν) :
    Parametric s (s.noting note) fun _ _ x y => Exec.Noted ν x y where
  pure _ _ a := .pure a
  bind := .bind
  widen := id
  fault f := .throw (.script f)
  missing _ := .throw _
  ground := .throw _
  turns := .throw _
  steps _ := .metered _
  memory _ := .metered _
  lookup := .lookup
  declareGlobal _ _ := .vars _
  declare _ _ := .vars _
  store := .store
  inScope hx := .bind (.vars _) fun _ => .closing hx fun _ notes => ⟨notes, rfl⟩
  inFrame _ _ _ hx :=
    .bind (.metered _) fun _ => .bind (.vars _) fun _ => .closing hx fun _ notes => ⟨notes, rfl⟩
  nested hx :=
    .bind (.metered _) fun _ =>
      .bind (fun m notes => ⟨note .entered m.vars m.host notes, rfl⟩) fun _ =>
        .closing (.bind (.metered _) fun _ => hx) fun m notes => ⟨note .left m.vars _ notes, rfl⟩
  builtin f m notes := ⟨note (.builtin f) m.vars m.host notes, rfl⟩
  hosted f m notes := ⟨note (.hosted f) m.vars m.host notes, rfl⟩
  getState _ := .withContext fun _ => .viewing _
  putState _ _ := .withContext fun _ => .viewing _
  delState _ := .withContext fun _ => .viewing _
  told _ := .withContext fun _ => .pure _
  logLine _ := .withContext fun _ _ notes => ⟨notes, rfl⟩
  callContract _ _ hxy := .callContract hxy

/-- `execute` under `Surroundings.noting` comes to the outcome that it comes to when
nobody watches, and leaves the same outside. -/
theorem execute_noting (s : Surroundings σ) (note : Event → Variables → Host → ν → ν)
    (contract : Contract) (context : Context) (view : View) (budget : Budget) (interval : UInt64)
    (outside : σ) (notes : ν) :
    let plain := execute s contract context view budget interval outside
    let noted := execute (s.noting note) contract context view budget interval (outside, notes)
    noted.1 = plain.1 ∧ noted.2.1 = plain.2 := by
  obtain ⟨later, ran⟩ := (parametric_noted s note).runEntry contract context
    (Machine.start (Host.new (Meter.new budget interval) view context) outside) notes
  change runEntry (s.noting note) contract context
    (Machine.start (Host.new (Meter.new budget interval) view context) (outside, notes)) = _ at ran
  unfold execute Exec.finish
  dsimp only
  rw [ran]
  cases runEntry s contract context
    (Machine.start (Host.new (Meter.new budget interval) view context) outside) <;>
    exact ⟨rfl, rfl⟩

end LedgerScript
