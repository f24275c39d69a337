import Mathlib.Data.Set.Defs
import LedgerScript.Proofs.Machine.NestedCall
import LedgerScript.Proofs.Machine.Parametricity

/-!
# Local variables

The variables of a function are its own.  Whatever an expression calls, all frames
are afterwards what they were before; a statement may declare variables in the
innermost scope and give new values to those of its function, and changes no frame
of a function that waits (`Evaluator.locals_isolated`).
-/

namespace LedgerScript

open Script (Program Expr Stmt)

variable {σ α β : Type}

/-! ## Frames -/

def Scope.names (scope : Scope) : Set String := {name | name ∈ scope}

/-- A change within the innermost frame: it has as many scopes as before, and the
same names in all of them but the innermost. -/
inductive LocalChange : List Frame → List Frame → Prop
  | none : LocalChange [] []
  | top {frame next : Frame} {below : List Frame} (scopes : next.length = frame.length)
    (outer : next.tail.map Scope.names = frame.tail.map Scope.names) :
    LocalChange (frame :: below) (next :: below)

/-- `update?` changes no name. -/
theorem Frame.names_update? {frame next : Frame} {name : String} {v : Value}
    (h : frame.update? name v = some next) : next.map Scope.names = frame.map Scope.names := by
  induction frame generalizing next with
  | nil => cases h
  | cons scope outer ih =>
    unfold Frame.update? at h
    split at h
    · next slot found =>
      cases h
      have declared : name ∈ scope := by
        rw [Std.ExtTreeMap.mem_iff_isSome_getElem?, found]
        rfl
      have same : Scope.names (scope.insert name { slot with value := v }) = scope.names := by
        ext other
        change other ∈ scope.insert name _ ↔ other ∈ scope
        rw [Std.ExtTreeMap.mem_insert, Std.compare_eq_iff_eq, or_iff_right_iff_imp]
        rintro rfl
        exact declared
      simp [same]
    · obtain ⟨inner, changed, rfl⟩ := Option.map_eq_some_iff.1 h
      simp [ih changed]

namespace LocalChange

variable {a b c : List Frame}

theorem refl (a : List Frame) : LocalChange a a := by
  cases a with
  | nil => exact .none
  | cons frame below => exact .top rfl rfl

theorem trans (hab : LocalChange a b) (hbc : LocalChange b c) : LocalChange a c := by
  cases hab with
  | none => exact hbc
  | top scopes outer =>
    cases hbc with
    | top scopes' outer' => exact .top (scopes'.trans scopes) (outer'.trans outer)

theorem tail (h : LocalChange a b) : b.tail = a.tail := by
  cases h <;> rfl

/-- `LocalChange` where all names remain. -/
theorem of_names {frame next : Frame} {below : List Frame}
    (h : next.map Scope.names = frame.map Scope.names) :
    LocalChange (frame :: below) (next :: below) := by
  have scopes := congrArg List.length h
  have outer := congrArg List.tail h
  simp only [List.length_map, ← List.map_tail] at scopes outer
  exact .top scopes outer

end LocalChange

namespace Variables

theorem localChange_declare (v : Variables) (name : String) (slot : Slot) :
    LocalChange v.frames (v.declare name slot).frames := by
  unfold declare
  split
  · next frames =>
    rw [frames]
    exact .top rfl rfl
  · exact .refl _

theorem localChange_update (v : Variables) (name : String) (value : Value) :
    LocalChange v.frames (v.update name value).frames := by
  unfold update
  extract_lets ofGlobals
  have kept : LocalChange v.frames ofGlobals.frames := by
    unfold ofGlobals
    split <;> exact .refl _
  split
  · exact kept
  · next frame below frames =>
    split
    · next changed updated =>
      rw [frames]
      exact .of_names (Frame.names_update? updated)
    · exact kept

/-- A `LocalChange` inside a block leaves one behind `popScope`, which keeps the names of
the scope that the block stands in, too. -/
theorem localChange_popScope {v w : Variables}
    (h : LocalChange v.pushScope.frames w.frames) : LocalChange v.frames w.popScope.frames := by
  unfold pushScope at h
  unfold popScope
  cases opened : v.frames with
  | nil =>
    simp only [opened] at h
    cases closed : w.frames <;> rw [closed] at h <;> cases h
    simp only [closed]
    exact .none
  | cons frame below =>
    simp only [opened] at h
    cases closed : w.frames <;> rw [closed] at h <;> cases h
    next outer =>
    exact .of_names outer

end Variables

/-! ## Parts of runs -/

theorem Machine.vars_resume (s : Surroundings σ) (m next : Machine σ) (child : Context)
    (truthy : Bool) : (m.resume s child truthy next).vars = m.vars := by
  cases truthy <;> rfl

/-- What a part of a program leaves of the frames. -/
def Phrase.Leaves : Phrase → List Frame → List Frame → Prop
  | .expression, before, after => after = before
  | .statement, before, after => LocalChange before after

theorem Phrase.Leaves.refl (k : Phrase) (frames : List Frame) : k.Leaves frames frames := by
  cases k with
  | expression => rfl
  | statement => exact LocalChange.refl frames

theorem Phrase.Leaves.trans {k : Phrase} {a b c : List Frame} (hab : k.Leaves a b)
    (hbc : k.Leaves b c) : k.Leaves a c := by
  cases k with
  | expression => exact Eq.trans hbc hab
  | statement => exact LocalChange.trans hab hbc

namespace Exec

variable {k : Phrase} {x : Exec σ α} {s : Surroundings σ}

/-- However it ends, `x` leaves of the frames what a part of its sort does. -/
def Confined (k : Phrase) (x : Exec σ α) : Prop :=
  ∀ ⦃m next : Machine σ⦄, Ends x m next → k.Leaves m.vars.frames next.vars.frames

/-- However it ends, `x` changes no variable. -/
def Still (x : Exec σ α) : Prop := ∀ ⦃m next : Machine σ⦄, Ends x m next → next.vars = m.vars

theorem Still.confined (h : x.Still) (k : Phrase) : x.Confined k := by
  intro m next ends
  rw [h ends]
  exact .refl k _

theorem still_pure (a : α) : (pure a : Exec σ α).Still := by
  rintro m next (⟨b, ran⟩ | ⟨e, ran⟩) <;> cases ran
  rfl

theorem still_throw (e : ContractError) : (throw e : Exec σ α).Still := by
  rintro m next (⟨b, ran⟩ | ⟨f, ran⟩) <;> cases ran
  rfl

theorem still_notice (s : Surroundings σ) (event : Event) :
    (modify (notice s event) : Exec σ PUnit).Still := by
  rintro m next (⟨a, ran⟩ | ⟨e, ran⟩) <;> cases ran
  rfl

theorem still_metered (x : Metered α) : (metered x : Exec σ α).Still := by
  intro m next ends
  unfold Ends metered at ends
  cases charged : x m.host.meter <;> simp only [charged] at ends <;>
    rcases ends with ⟨a, ran⟩ | ⟨e, ran⟩ <;> cases ran <;> rfl

theorem still_viewing (x : Viewing α) : (viewing x : Exec σ α).Still := by
  intro m next ends
  unfold Ends viewing at ends
  cases read : x m.host.view <;> simp only [read] at ends <;>
    rcases ends with ⟨a, ran⟩ | ⟨e, ran⟩ <;> cases ran <;> rfl

theorem still_withContext {f : Context → Exec σ α} (hf : ∀ c, (f c).Still) :
    (withContext f).Still := by
  intro m next ends
  unfold Ends at ends
  cases running : m.host.current? with
  | none =>
    rw [withContext_of_none running] at ends
    rcases ends with ⟨a, ran⟩ | ⟨e, ran⟩ <;> cases ran
    rfl
  | some c =>
    rw [withContext_of_some running] at ends
    exact hf c ends

theorem still_logLine (line : String) : (logLine line : Exec σ Unit).Still := by
  refine still_withContext fun _ => ?_
  rintro m next (⟨a, ran⟩ | ⟨e, ran⟩) <;> cases ran
  rfl

theorem still_told (f : String → ContractId → UInt64 → Value) :
    (told f : Exec σ Value).Still :=
  still_withContext fun _ => still_pure _

theorem still_lookup (name : String) : (lookup name : Exec σ Slot).Still := by
  intro m next ends
  unfold Ends lookup at ends
  cases found : m.vars.find? name <;> simp only [found] at ends <;>
    rcases ends with ⟨a, ran⟩ | ⟨e, ran⟩ <;> cases ran <;> rfl

/-! ### Calls -/

theorem still_enter (x : Evaluator σ) (contract : Contract) (child : Context) :
    (x.enter s contract child).Still := by
  intro m next ends
  unfold Ends Evaluator.enter at ends
  cases ran : x.run contract.program EntryPoint.invoke.name child.entryArgs
      (m.entering s child) <;> simp only [ran] at ends <;>
    rcases ends with ⟨a, same⟩ | ⟨e, same⟩ <;> cases same
  · exact Machine.vars_resume s m _ child _
  · rfl

theorem still_callFound (x : Evaluator σ) (callee : ContractId) (child? : Option Context) :
    (x.callFound s callee child?).Still := by
  intro m next ends
  unfold Ends Evaluator.callFound at ends
  cases found : s.resolve callee m.outside with
  | error e outside =>
    simp only [found] at ends
    rcases ends with ⟨a, same⟩ | ⟨e, same⟩ <;> cases same
    rfl
  | ok contract outside =>
    simp only [found] at ends
    split at ends
    · cases child? with
      | some child => exact still_enter (m := m.withOutside outside) x contract child ends
      | none =>
        rcases ends with ⟨a, same⟩ | ⟨e, same⟩ <;> cases same
        rfl
    · rcases ends with ⟨a, same⟩ | ⟨e, same⟩ <;> cases same
      rfl

/-- `callContract` is `Still`: a called contract has variables of its own. -/
theorem still_callContract (x : Evaluator σ) (target method : String) (args : Value) :
    (x.callContract s target method args).Still := by
  intro m next ends
  unfold Ends at ends
  rw [Evaluator.callContract_eq] at ends
  split at ends
  · rcases ends with ⟨a, same⟩ | ⟨e, same⟩ <;> cases same
    rfl
  · split at ends
    · rcases ends with ⟨a, same⟩ | ⟨e, same⟩ <;> cases same
      rfl
    · exact still_callFound x _ _ ends

/-! ### Sequences and brackets -/

theorem Confined.bind {f : α → Exec σ β} (hx : x.Confined k) (hf : ∀ a, (f a).Confined k) :
    (x >>= f).Confined k := by
  intro m next ends
  rcases ends.of_bind with ⟨e, failed⟩ | ⟨a, mid, ran, rest⟩
  · exact hx (.inr ⟨e, failed⟩)
  · exact (hx (.inl ⟨a, ran⟩)).trans (hf a rest)

theorem confined_vars {f : Variables → Variables} (hf : ∀ v, k.Leaves v.frames (f v).frames) :
    (vars f : Exec σ Unit).Confined k := by
  rintro m next (⟨a, ran⟩ | ⟨e, ran⟩) <;> cases ran
  exact hf m.vars

theorem confined_store (root : String) (keys : List PathKey) (v : Value) :
    (Evaluator.store root keys v : Exec σ Unit).Confined .statement := by
  refine .bind ((still_lookup root).confined _) fun slot => ?_
  split
  · exact (still_throw _).confined _
  · intro m next ends
    unfold Ends change at ends
    cases written : Value.writePath v keys slot.value <;> simp only [written] at ends <;>
      rcases ends with ⟨a, ran⟩ | ⟨e, ran⟩ <;> cases ran <;>
      exact m.vars.localChange_update root _

theorem Confined.inScope (hx : x.Confined .statement) : (inScope x).Confined .statement := by
  intro m next ends
  rcases ends.of_bind with ⟨e, failed⟩ | ⟨u, opened, ran, inside⟩
  · cases failed
  · cases ran
    obtain ⟨last, ran, rfl⟩ := Ends.of_closing inside
    exact Variables.localChange_popScope (hx ran)

/-- `inFrame` is `Confined` to an expression: it leaves the frames below its own as they
were, and takes its own away. -/
theorem Confined.inFrame (hx : x.Confined .statement) (scope : Scope) :
    (inFrame scope x).Confined .expression := by
  intro m next ends
  rcases ends.of_bind with ⟨e, failed⟩ | ⟨u, counted, ran, inside⟩
  · exact congrArg Variables.frames (still_metered _ (.inr ⟨e, failed⟩))
  · have same := still_metered _ (.inl ⟨u, ran⟩)
    rcases inside.of_bind with ⟨e, failed⟩ | ⟨u, opened, ran, inside⟩
    · cases failed
    · cases ran
      obtain ⟨last, ran, rfl⟩ := Ends.of_closing inside
      have below : last.vars.frames.tail = counted.vars.frames := LocalChange.tail (hx ran)
      exact below.trans (congrArg Variables.frames same)

theorem Confined.nested (hx : x.Confined k) : (Evaluator.nested s x).Confined k := by
  refine .bind ((still_metered _).confined k) fun _ =>
    .bind ((still_notice s .entered).confined k) fun _ => ?_
  intro m next ends
  obtain ⟨last, ran, rfl⟩ := Ends.of_closing ends
  have stepped : (Exec.step >>= fun _ => x).Confined k :=
    .bind ((still_metered _).confined k) fun _ => hx
  have kept := stepped ran
  exact kept

end Exec

/-! ## All runs -/

theorem parametric_confined (s : Surroundings σ) :
    Parametric s s fun k _ x _ => Exec.Confined k x where
  pure k _ a := (Exec.still_pure a).confined k
  bind := .bind
  widen hx m next ends := by
    have same : next.vars.frames = m.vars.frames := hx ends
    change LocalChange _ _
    rw [same]
    exact .refl _
  fault f := (Exec.still_throw (.script f)).confined _
  missing entry := (Exec.still_throw _).confined _
  ground := @fun _ => (Exec.still_throw _).confined _
  turns := @fun _ => (Exec.still_throw _).confined _
  steps _ := (Exec.still_metered _).confined _
  memory _ := (Exec.still_metered _).confined _
  lookup name := (Exec.still_lookup name).confined _
  declareGlobal name slot := Exec.confined_vars fun _ => rfl
  declare name slot := Exec.confined_vars fun v => v.localChange_declare name slot
  store := Exec.confined_store
  inScope := .inScope
  inFrame scope _ _ hx := hx.inFrame scope
  nested := .nested
  builtin f := (Exec.still_notice s (.builtin f)).confined _
  hosted f := (Exec.still_notice s (.hosted f)).confined _
  getState key := (Exec.still_withContext fun _ => Exec.still_viewing _).confined _
  putState key v := (Exec.still_withContext fun _ => Exec.still_viewing _).confined _
  delState key := (Exec.still_withContext fun _ => Exec.still_viewing _).confined _
  told f := (Exec.still_told f).confined _
  logLine line := (Exec.still_logLine line).confined _
  callContract _ _ _ target method args :=
    (Exec.still_callContract _ target method args).confined _

/-- **The variables of a function are its own.**  However `eval` of an expression ends,
all frames are what they were, with every name, value and mark of a constant in them.
However `exec` of a statement ends, the frames have made a `LocalChange`: no frame but the
innermost one has changed, which has as many scopes as before, and the same names in all
of them but the innermost. -/
theorem Evaluator.locals_isolated (s : Surroundings σ) (level : Nat) (p : Program)
    (m : Machine σ) :
    (∀ e : Expr, (((ofLevels s level).eval p e).finish m).2.vars.frames = m.vars.frames) ∧
      ∀ stmt : Stmt,
        LocalChange m.vars.frames (((ofLevels s level).exec p stmt).finish m).2.vars.frames := by
  have related := (parametric_confined s).lax.ofLevels level
  have admitted := Regime.admits_lax p
  refine ⟨fun e => ?_, fun stmt => ?_⟩
  · exact related.eval admitted e (fun _ _ => trivial) (Exec.ends_finish _ m)
  · exact related.exec admitted stmt (fun _ _ => trivial) (Exec.ends_finish _ m)

end LedgerScript
