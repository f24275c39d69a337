import LedgerScript.Proofs.Ledger.Answer
import Mathlib.Data.List.Chain

/-!
# The life of a call

A course that moves only as the phases allow stays lawful (`Lawful.on`, and over the
phases of a verdict `Lawful.foldl_on`), and it may return to idle from wherever a
verdict leaves it (`led_verdict`).  Which phases a verdict passes through tells how the
call was settled (`verdict_phases`).  Main statement: `trace_lawful`.
-/

namespace LedgerScript

/-! ## Lawful courses -/

namespace Phase

/-- Phases of which each `leadsTo` the next one. -/
def Led (phases : List Phase) : Prop :=
  phases.IsChain fun p q => p.leadsTo q = true

instance : DecidablePred Led := fun phases =>
  inferInstanceAs (Decidable (phases.IsChain fun p q => p.leadsTo q = true))

/-- Phases that begin with `idle` and are `Led`. -/
structure Lawful (phases : List Phase) : Prop where
  begins : phases.head? = some .idle
  led : Led phases

end Phase

namespace Course

theorem visited_on (c : Course) (next : Phase) : (c.on next).visited = c.visited ++ [next] := by
  simp [visited, on]

theorem getLast?_visited (c : Course) : c.visited.getLast? = some c.phase := by
  simp [visited]

theorem visited_foldl_on (c : Course) (phases : List Phase) :
    (phases.foldl Course.on c).visited = c.visited ++ phases := by
  induction phases generalizing c with
  | nil => simp
  | cons next rest ih => simp [ih, visited_on]

/-- One more phase to which the last one `leadsTo`. -/
theorem Lawful.on {c : Course} {next : Phase} (h : Phase.Lawful c.visited)
    (leads : c.phase.leadsTo next = true) : Phase.Lawful (c.on next).visited := by
  rw [visited_on]
  refine ⟨?_, h.led.append (List.isChain_singleton next) ?_⟩
  · rw [List.head?_append, h.begins]
    rfl
  · intro p hp q hq
    rw [getLast?_visited] at hp
    cases hp
    cases hq
    exact leads

/-- More phases that are `Led` behind the last one. -/
theorem Lawful.foldl_on {c : Course} {phases : List Phase} (h : Phase.Lawful c.visited)
    (led : Phase.Led (c.phase :: phases)) :
    Phase.Lawful (phases.foldl Course.on c).visited := by
  induction phases generalizing c with
  | nil => exact h
  | cons next rest ih =>
    obtain ⟨first, others⟩ := List.isChain_cons_cons.1 led
    exact ih (Lawful.on h first) others

/-- `finish` adds the return to `idle` where the phase `leadsTo` it. -/
theorem finish_of_leadsTo {c : Course} (leads : c.phase.leadsTo .idle = true) :
    c.finish = (c.on .idle).visited := by
  have busy : c.phase ≠ .idle := by
    intro idle
    rw [idle] at leads
    cases leads
  rw [finish, if_neg busy, visited_on]

end Course

/-! ## Verdicts -/

namespace Entry

/-- The phases of a `verdict` have `discarding` among them unless the call is a success,
and `committing` only if the call may write. -/
theorem verdict_phases (e : Entry) (l : Ledger) (outcome : Outcome) :
    let v := e.verdict l outcome
    v.settlement.success = false ∧ v.phases = [.discarding] ∨
      e.context.kind.readOnly = false ∧
        (v.settlement.success = true ∧ v.phases = [.committing] ∨
          v.settlement.success = false ∧ v.phases = [.committing, .discarding]) := by
  intro v
  cases result : outcome.result with
  | error f =>
    have dropped : v = ⟨.failed f, l.store, [.discarding]⟩ := by
      simp only [v, verdict, result]
    rw [dropped]
    exact .inl ⟨rfl, rfl⟩
  | ok value =>
    by_cases kept : e.context.kind.readOnly || !value.truthy
    · have dropped : v = ⟨.discarded value, l.store, [.discarding]⟩ := by
        simp only [v, verdict, result, kept, if_true]
      rw [dropped]
      exact .inl ⟨rfl, rfl⟩
    · have writable : e.context.kind.readOnly = false := by
        rw [Bool.not_eq_true, Bool.or_eq_false_iff] at kept
        exact kept.1
      refine .inr ⟨writable, ?_⟩
      simp only [v, verdict, result, if_neg kept]
      cases (e.candidate l outcome).violations with
      | cons first rest => exact .inr ⟨rfl, rfl⟩
      | nil =>
        cases Access.commit l.store (e.staged outcome) with
        | error f => exact .inr ⟨rfl, rfl⟩
        | ok done => exact .inl ⟨rfl, rfl⟩

end Entry

/-! ## Traces -/

namespace Ledger

variable (l : Ledger) (kind : CallKind) (e : Entry)

theorem lawful_opening : Phase.Lawful kind.opening.visited := by
  cases kind <;> exact ⟨rfl, by decide⟩

/-- The trace of a call that `opening` refuses is `Lawful`, ends with `idle`, and has
neither `executing` nor `committing` in it. -/
theorem refused_trace :
    Phase.Lawful kind.opening.finish ∧ kind.opening.finish.getLast? = some .idle ∧
      .executing ∉ kind.opening.finish ∧ .committing ∉ kind.opening.finish := by
  cases kind <;> exact ⟨⟨rfl, by decide⟩, rfl, by decide, by decide⟩

/-- The phases of a `verdict` are `Led` behind `executing`, and the last one `leadsTo`
`idle`. -/
theorem led_verdict (outcome : Outcome) :
    Phase.Led (.executing :: (e.verdict l outcome).phases) ∧
      ∀ c : Course,
        ((e.verdict l outcome).phases.foldl Course.on c).phase.leadsTo .idle = true := by
  rcases e.verdict_phases l outcome with ⟨-, phases⟩ | ⟨-, ⟨-, phases⟩ | ⟨-, phases⟩⟩ <;>
    rw [phases] <;> exact ⟨by decide, fun c => rfl⟩

theorem trace_answered :
    (l.answered kind e).1.trace =
      kind.opening.visited ++ .executing :: ((e.verdict l (e.run l).1).phases ++ [.idle]) := by
  have back := (led_verdict l e (e.run l).1).2 (kind.opening.on .executing)
  unfold answered
  dsimp only
  rw [Course.finish_of_leadsTo back, Course.visited_on, Course.visited_foldl_on, Course.visited_on]
  simp

theorem lawful_answered : Phase.Lawful (l.answered kind e).1.trace := by
  obtain ⟨led, back⟩ := led_verdict l e (e.run l).1
  have running : Phase.Lawful (kind.opening.on .executing).visited :=
    Course.Lawful.on (lawful_opening kind) (by cases kind <;> rfl)
  unfold answered
  dsimp only
  rw [Course.finish_of_leadsTo (back _)]
  exact Course.Lawful.on (Course.Lawful.foldl_on running led) (back _)

/-- The trace of an `answered` call ends with `committing` and `idle` exactly if the call
is a success, and has `discarding` in it if it is none. -/
theorem trace_answered_tells :
    let report := (l.answered kind e).1
    (report.settlement.success = true ↔ [.committing, .idle] <:+ report.trace) ∧
      (e.context.kind = .query → .committing ∉ report.trace) ∧
      .executing ∈ report.trace ∧
      (report.settlement.success = false → .discarding ∈ report.trace) := by
  intro report
  have settled : report.settlement = (e.verdict l (e.run l).1).settlement := rfl
  have trace : report.trace = _ := trace_answered l kind e
  rw [trace, settled]
  rcases e.verdict_phases l (e.run l).1 with ⟨failed, phases⟩ | ⟨writable, committing⟩
  · rw [failed, phases]
    cases kind <;> exact ⟨by decide, fun _ => by decide, by decide, fun _ => by decide⟩
  · have other : e.context.kind ≠ .query := by
      intro query
      rw [query] at writable
      cases writable
    rcases committing with ⟨done, phases⟩ | ⟨failed, phases⟩
    · rw [done, phases]
      cases kind <;> exact ⟨by decide, fun query => absurd query other, by decide, nofun⟩
    · rw [failed, phases]
      cases kind <;>
        exact ⟨by decide, fun query => absurd query other, by decide, fun _ => by decide⟩

/-- **Every trace is a lawful life that tells the outcome.**  Whatever ledger is asked,
its code records sound or not and its store refusing or not, the trace that `answer`
reports is `Phase.Lawful` and ends with `idle`.  A call is a success exactly if its trace
ends by `committing`, which a query never does; one without `executing` has used nothing;
and one with `executing` and no success has `discarding`. -/
theorem trace_lawful (l : Ledger) (r : Request) :
    let report := (l.answer r).1
    (report.trace.head? = some .idle ∧ report.trace.getLast? = some .idle ∧
        report.trace.IsChain fun p q => p.leadsTo q = true) ∧
      (report.settlement.success = true ↔ [.committing, .idle] <:+ report.trace) ∧
      (r.kind = .query → .committing ∉ report.trace) ∧
      (.executing ∉ report.trace → report.usage = {}) ∧
      (.executing ∈ report.trace → report.settlement.success = false →
        .discarding ∈ report.trace) := by
  intro report
  cases opened : l.opening r with
  | error refusal =>
    have refused : report = ⟨.failed refusal.error, {}, r.kind.opening.finish⟩ :=
      congrArg Prod.fst (answer_of_refused opened)
    obtain ⟨lawful, ends, resting, uncommitted⟩ := refused_trace r.kind
    rw [refused]
    refine ⟨⟨lawful.begins, ends, lawful.led⟩, ⟨nofun, fun committed => ?_⟩, fun _ => uncommitted,
      fun _ => rfl, fun ran => absurd ran resting⟩
    exact absurd (committed.subset (List.mem_cons_self ..)) uncommitted
  | ok e =>
    have answered : report = (l.answered r.kind e).1 :=
      congrArg Prod.fst (answer_of_entered opened)
    have kind : e.context.kind = r.kind := (opening_eq_ok opened).1
    have lawful := lawful_answered l r.kind e
    obtain ⟨success, query, ran, discarded⟩ := trace_answered_tells l r.kind e
    rw [answered]
    refine ⟨⟨lawful.begins, ?_, lawful.led⟩, success, fun asked => query (kind.trans asked),
      fun resting => absurd ran resting, fun _ => discarded⟩
    rw [trace_answered, ← List.cons_append, ← List.append_assoc, List.getLast?_concat]

end Ledger

end LedgerScript
