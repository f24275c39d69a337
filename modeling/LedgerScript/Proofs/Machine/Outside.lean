import LedgerScript.Proofs.Machine.Coupling

/-!
# What lies outside of a run

The state outside of a run is there to find contracts in.  Where the same contracts
are found in two such states, the same run takes place.  Main statement:
`execute_alike`.
-/

namespace LedgerScript

variable {σ τ α : Type}

/-- `s.Alike t R`: `resolve` finds the same contracts in both, as long as the states
outside are related by `R`. -/
structure Surroundings.Alike (s : Surroundings σ) (t : Surroundings τ) (R : σ → τ → Prop) :
    Prop where
  entries : t.entries = s.entries
  limits : t.limits = s.limits
  resolve : ∀ {a b}, R a b → ∀ id,
    Joined R (fun _ => False) (s.resolve id a) (t.resolve id b)
  watch : ∀ {a b}, R a b → ∀ event vars host,
    R (s.watch event vars host a) (t.watch event vars host b)

/-- Machines that are the same but for what lies outside. -/
structure Machine.SameInside (R : σ → τ → Prop) (m : Machine σ) (n : Machine τ) : Prop where
  vars : n.vars = m.vars
  host : n.host = m.host
  outside : R m.outside n.outside

variable {s : Surroundings σ} {t : Surroundings τ} {R : σ → τ → Prop}

namespace Machine.SameInside

variable {m next : Machine σ} {n next' : Machine τ}

/-- What is done to the host alone is done to both. -/
theorem onHost (h : m.SameInside R n) (f : Host → Host) :
    SameInside R { m with host := f m.host } { n with host := f n.host } :=
  ⟨h.vars, congrArg f h.host, h.outside⟩

theorem joined_meter (h : m.SameInside R n) (x : Metered α) :
    Joined (fun a b => SameInside R (m.withMeter a) (n.withMeter b)) (fun _ => False)
      (x m.host.meter) (x n.host.meter) := by
  have same : ∀ meter, SameInside R (m.withMeter meter) (n.withMeter meter) := fun meter =>
    h.onHost fun host => { host with meter := meter }
  rw [h.host]
  cases x m.host.meter with
  | ok a meter => exact .ok (same meter)
  | error e meter => exact .error (same meter)

theorem runsAlike (h : m.SameInside R n) : m.host.RunsAlike n.host :=
  Host.runsAlike_of_eq (congrArg Host.current? h.host)

/-- `viewing` is the same on both. -/
theorem coupled_access (f : Namespace → Viewing α) :
    Coupled (SameInside R) (fun _ => False)
      (Exec.withContext fun c => Exec.viewing (f c.space))
      (Exec.withContext fun c => Exec.viewing (f c.space)) := by
  refine .access (fun h => h.runsAlike) f f fun {m n} own h => ?_
  have same : ∀ view, SameInside R (m.withView view) (n.withView view) := fun view =>
    h.onHost fun host => { host with view := view }
  rw [h.host]
  cases f own m.host.view with
  | ok a view => exact .ok (same view)
  | error e view => exact .error (same view)

end Machine.SameInside

/-- `SameInside` couples runs: machines that are the same inside stay so. -/
theorem couples_sameInside (h : s.Alike t R) :
    Couples s t (Machine.SameInside R) fun _ => False where
  sameVars alike := alike.vars
  current alike := alike.runsAlike
  vars alike v := ⟨rfl, alike.host, alike.outside⟩
  charge _ := .metered fun alike => alike.joined_meter _
  discharge alike f := alike.onHost fun host => { host with meter := f host.meter }
  notice {m n} alike event := by
    refine ⟨alike.vars, alike.host, ?_⟩
    unfold Exec.notice
    rw [alike.vars, alike.host]
    exact h.watch alike.outside event m.vars m.host
  getState key := by
    unfold Exec.getState
    rw [h.entries, h.limits]
    exact Machine.SameInside.coupled_access fun space => Access.get s.entries s.limits space key
  putState key v := by
    unfold Exec.putState
    rw [h.limits]
    exact Machine.SameInside.coupled_access fun space => Access.set s.limits space key v
  delState key := by
    unfold Exec.delState
    rw [h.limits]
    exact Machine.SameInside.coupled_access fun space => Access.delete s.limits space key
  log alike line := alike.onHost fun host => { host with logs := line :: host.logs }
  waits alike callee := by
    rw [alike.host]
    exact .inl rfl
  resolve {m n} alike id := by
    have found := h.resolve alike.outside id
    generalize s.resolve id m.outside = left at found
    generalize t.resolve id n.outside = right at found
    cases found with
    | ok related => exact .ok ⟨alike.vars, alike.host, related⟩
    | error related => exact .error ⟨alike.vars, alike.host, related⟩
    | left stopped => exact stopped.elim
    | right stopped => exact stopped.elim
  entering {m n} alike {c d} running running' _ callee method args := by
    rw [alike.host, running] at running'
    cases running'
    refine ⟨rfl, ?_, ?_⟩
    · change n.host.entering _ = m.host.entering _
      rw [alike.host]
    · unfold Machine.entering Exec.notice
      rw [alike.host]
      exact h.watch alike.outside _ _ _
  leaving alike later _ _ := by
    refine ⟨alike.vars, ?_, later.outside⟩
    unfold Machine.leaving
    rw [later.host]
  rollback alike back := by
    refine ⟨back.vars, ?_, back.outside⟩
    unfold Machine.withView
    rw [alike.host, back.host]

/-- **What lies outside is not felt.**  In surroundings that are `Alike`, `execute` comes
to the same `Outcome`, and the states outside are related in the end if they were at
first. -/
theorem execute_alike (h : s.Alike t R) (contract : Contract) (context : Context) (view : View)
    (budget : Budget) (interval : UInt64) {a : σ} {b : τ} (related : R a b) :
    (execute t contract context view budget interval b).1 =
        (execute s contract context view budget interval a).1 ∧
      R (execute s contract context view budget interval a).2
        (execute t contract context view budget interval b).2 := by
  let host := Host.new (Meter.new budget interval) view context
  have begun : Machine.SameInside R (Machine.start host a) (Machine.start host b) :=
    ⟨rfl, rfl, related⟩
  have ran := (couples_sameInside h).parametric.runEntry contract context begun
  generalize hm : runEntry s contract context (Machine.start host a) = left at ran
  generalize hn : runEntry t contract context (Machine.start host b) = right at ran
  cases ran with
  | ok later =>
    rw [execute_of_ok hm, execute_of_ok hn]
    exact ⟨congrArg (Host.outcome · _) later.host, later.outside⟩
  | error later =>
    rw [execute_of_error hm, execute_of_error hn]
    exact ⟨congrArg (Host.outcome · _) later.host, later.outside⟩
  | left stopped => exact stopped.elim
  | right stopped => exact stopped.elim

end LedgerScript
