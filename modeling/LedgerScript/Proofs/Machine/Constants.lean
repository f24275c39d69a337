import LedgerScript.Proofs.Machine.Changes
import LedgerScript.Proofs.Machine.Locals
import LedgerScript.Proofs.Machine.LoopExits
import LedgerScript.Proofs.Machine.Noting
import LedgerScript.Proofs.Machine.PathLaws

/-!
# Constants of the top level

No assignment changes a constant itself, but one to a place inside of it may.  A scalar
has no inside, so a constant of the top level keeps it to the end of the run.  Main
statement: `Evaluator.constants_last`.

A watcher sees the top level at every event (`watching`).  What is kept on the way is
that the constant is in place now and was at every event before (`Constant.Safe`).
Functions declare variables in scopes of their own and find them there first
(`Constant.Steady`), and contracts that are called have a top level of their own
(`Constant.Deep`).
-/

namespace LedgerScript

open Script (Program Binding)

variable {σ α : Type}

/-! ## Variables -/

/-- Null, a boolean, a number or a text. -/
def Value.scalar : Value → Bool
  | .list _ | .map _ => false
  | _ => true

theorem Value.writePath_of_scalar {v : Value} (h : v.scalar = true) (new : Value) (key : PathKey)
    (rest : List PathKey) : writePath new (key :: rest) v = .error (.cannotSet v.kind) v := by
  cases v with
  | list items => cases h
  | map entries => cases h
  | null | bool b | int n | str t => rfl

theorem Scope.getElem?_insert_of_ne {scope : Scope} {name other : String} (h : name ≠ other)
    (slot : Slot) : (scope.insert other slot)[name]? = scope[name]? := by
  rw [Std.ExtTreeMap.getElem?_insert, if_neg fun same => h (Std.compare_eq_iff_eq.1 same).symm]

/-- A `statement` needs a scope, for what it declares. -/
def Phrase.Ready : Phrase → List Frame → Prop
  | .expression, _ => True
  | .statement, frames => ∃ scope outer below, frames = (scope :: outer) :: below

theorem Phrase.Ready.of_leaves {k : Phrase} {before after : List Frame} (h : k.Ready before)
    (leaves : k.Leaves before after) : k.Ready after := by
  cases k with
  | expression => trivial
  | statement =>
    obtain ⟨scope, outer, below, rfl⟩ := h
    cases leaves with
    | top scopes _ =>
      obtain ⟨scope', outer', rfl⟩ := List.exists_cons_of_length_eq_add_one scopes
      exact ⟨scope', outer', below, rfl⟩

namespace Variables

theorem globals_declare {v : Variables} (h : Phrase.statement.Ready v.frames) (name : String)
    (slot : Slot) : (v.declare name slot).globals = v.globals := by
  obtain ⟨scope, outer, below, frames⟩ := h
  unfold declare
  rw [frames]

theorem globals_pushScope (v : Variables) : v.pushScope.globals = v.globals := by
  unfold pushScope
  split <;> rfl

theorem globals_popScope (v : Variables) : v.popScope.globals = v.globals := by
  unfold popScope
  split <;> rfl

theorem ready_pushScope {v : Variables} (h : Phrase.statement.Ready v.frames) :
    Phrase.statement.Ready v.pushScope.frames := by
  obtain ⟨scope, outer, below, frames⟩ := h
  unfold pushScope
  rw [frames]
  exact ⟨∅, scope :: outer, below, rfl⟩

/-- What the innermost function has under a name for itself. -/
def own? (v : Variables) (name : String) : Option Slot :=
  v.frames.head?.bind fun frame => frame.find? name

/-- `update` leaves a variable of the top level alone where another name is meant, or a
variable of the function itself (`own?`). -/
theorem getElem?_globals_update {v : Variables} {name root : String} {new : Value}
    (apart : name = root → (v.own? root).isSome = true) :
    (v.update root new).globals[name]? = v.globals[name]? := by
  unfold own? at apart
  unfold update
  extract_lets ofGlobals
  have kept (other : name ≠ root) : ofGlobals.globals[name]? = v.globals[name]? := by
    unfold ofGlobals
    split
    · exact Scope.getElem?_insert_of_ne other _
    · rfl
  cases frames : v.frames with
  | nil =>
    rw [frames] at apart
    exact kept fun same => Bool.false_ne_true (apart same)
  | cons frame below =>
    rw [frames] at apart
    have found := frame.isSome_update? root new
    dsimp only
    split
    · rfl
    · next missing =>
      rw [missing] at found
      exact kept fun same => Bool.false_ne_true (found.trans (apart same))

end Variables

/-! ## Runs from a binding on -/

namespace Evaluator

variable (below : Evaluator σ) (p : Program)

/-- A run up to the value of one of its bindings, `b`. -/
def runUpTo (before : List Binding) (b : Binding) : Exec σ Value := do
  below.initGlobals p before
  Exec.step
  below.evalInit p b.init

/-- A run from the value of `b` on, after `runUpTo`. -/
def runOn (b : Binding) (after : List Binding) (name : String) (args : List Value) (v : Value) :
    Exec σ Value := do
  Exec.vars (·.declareGlobal b.name ⟨v, b.constant⟩)
  below.initGlobals p after
  below.start p name args

theorem initGlobals_append (before after : List Binding) :
    below.initGlobals p (before ++ after) =
      below.initGlobals p before >>= fun _ => below.initGlobals p after := by
  induction before with
  | nil => rfl
  | cons b rest ih =>
    rw [List.cons_append, initGlobals, initGlobals, ih]
    simp only [bind_assoc]

theorem run_eq_runUpTo_bind {before after : List Binding} {b : Binding}
    (place : p.globals = before ++ b :: after) (name : String) (args : List Value) :
    below.run p name args =
      below.runUpTo p before b >>= fun v => below.runOn p b after name args v := by
  rw [run_eq, place, initGlobals_append, initGlobals]
  simp only [runUpTo, runOn, bind_assoc]

end Evaluator

/-! ## Watching -/

/-- What a watcher sees at an `Event`: how many contracts wait for the one that runs, and
the variables of its top level. -/
structure Sight where
  waiting : Nat
  globals : Scope

/-- The last sight comes first. -/
def Sight.note (_ : Event) (vars : Variables) (host : Host) (sights : List Sight) : List Sight :=
  ⟨host.callers.length, vars.globals⟩ :: sights

def watching (s : Surroundings σ) : Surroundings (σ × List Sight) := s.noting Sight.note

/-- What is seen of `runOn`, the last `Sight` first. -/
def Evaluator.sightsOn (s : Surroundings σ) (level : Nat) (p : Program) (b : Binding)
    (after : List Binding) (name : String) (args : List Value) (v : Value) (m : Machine σ) :
    List Sight :=
  (((ofLevels (watching s) level).runOn p b after name args v).finish (m.noted [])).2.outside.2

/-- `runOn` goes on the same over `watching`. -/
theorem Evaluator.noted_runOn (s : Surroundings σ) (level : Nat) (p : Program) (b : Binding)
    (after : List Binding) (name : String) (args : List Value) (v : Value) :
    Exec.Noted (List Sight) ((ofLevels s level).runOn p b after name args v)
      ((ofLevels (watching s) level).runOn p b after name args v) := by
  have noted := (parametric_noted s Sight.note).lax
  have related := noted.ofLevels level
  have admitted := Regime.admits_lax p
  exact .bind (.vars _) fun _ =>
    .bind (noted.initGlobals related admitted after fun _ _ => trivial) fun _ =>
      noted.start admitted (noted.functions related) name args (Regime.each_lax args)

/-- What is there to be seen. -/
def Sight.now (m : Machine σ) : Sight := ⟨m.host.callers.length, m.vars.globals⟩

/-- A constant of the top level, and how many contracts wait while its program runs. -/
structure Constant where
  waiting : Nat
  name : String
  value : Value

namespace Constant

variable {c : Constant} {s : Surroundings σ} {m next a b d : Machine (σ × List Sight)}

/-- If the program of the constant runs, its slot in `globals` is the constant. -/
def InPlace (c : Constant) (sight : Sight) : Prop :=
  sight.waiting = c.waiting → sight.globals[c.name]? = some ⟨c.value, true⟩

/-- The constant is `InPlace`, and was at every event. -/
def Safe (c : Constant) (m : Machine (σ × List Sight)) : Prop :=
  ∀ sight ∈ .now m :: m.outside.2, c.InPlace sight

theorem Safe.past (h : c.Safe m) : ∀ sight ∈ m.outside.2, c.InPlace sight :=
  fun sight mem => h sight (List.mem_cons_of_mem _ mem)

/-- A machine that is `Safe` is so after an event, for the watcher sees what is there. -/
theorem Safe.notice (h : c.Safe m) (s : Surroundings σ) (event : Event) :
    c.Safe (Exec.notice (watching s) event m) :=
  List.forall_mem_cons.2 ⟨h _ List.mem_cons_self, h⟩

theorem Safe.same (h : c.Safe a) (globals : b.vars.globals = a.vars.globals)
    (contexts : b.host.contexts = a.host.contexts) (notes : b.outside.2 = a.outside.2) :
    c.Safe b := by
  have now : Sight.now b = .now a := by
    unfold Sight.now Host.callers
    rw [globals, contexts]
  unfold Safe
  rw [now, notes]
  exact h

/-- Deeper than the program of the constant runs, a machine is `Safe` if it was. -/
theorem Safe.of_lt (past : ∀ sight ∈ m.outside.2, c.InPlace sight)
    (deeper : c.waiting < m.host.callers.length) : c.Safe m :=
  List.forall_mem_cons.2 ⟨fun same => absurd same (Nat.ne_of_gt deeper), past⟩

/-! ### Contracts that are called -/

/-- The change that a called contract makes: what is `Safe` before is so after. -/
def Deep (c : Constant) (a b : Machine (σ × List Sight)) : Prop :=
  c.waiting < a.host.callers.length →
    b.host.contexts = a.host.contexts ∧ (c.Safe a → c.Safe b)

theorem Deep.trans (hab : c.Deep a b) (hbd : c.Deep b d) : c.Deep a d := by
  intro deeper
  obtain ⟨first, mid⟩ := hab deeper
  rw [Host.callers, ← first] at deeper
  obtain ⟨second, last⟩ := hbd deeper
  exact ⟨second.trans first, fun safe => last (mid safe)⟩

theorem Deep.same (contexts : b.host.contexts = a.host.contexts)
    (notes : b.outside.2 = a.outside.2) : c.Deep a b := by
  refine fun deeper => ⟨contexts, fun safe => .of_lt ?_ ?_⟩
  · rw [notes]
    exact safe.past
  · rw [Host.callers, contexts]
    exact deeper

theorem Deep.notice (s : Surroundings σ) (event : Event) (m : Machine (σ × List Sight)) :
    c.Deep m (Exec.notice (watching s) event m) :=
  fun _ => ⟨rfl, fun safe => safe.notice s event⟩

variable {child : Context}

/-- A contract that is called has this one's callers and this one itself waiting. -/
theorem lt_entering (may : m.MayCall child) (le : c.waiting ≤ m.host.callers.length) :
    c.waiting < (m.host.entering child).callers.length := by
  change c.waiting < m.host.contexts.length
  rw [may.length_contexts]
  exact Nat.lt_succ_of_le le

section Call

variable (may : m.MayCall child) (back : m.Restores next) (safe : c.Safe m)
  (le : c.waiting ≤ m.host.callers.length) (ran : c.Deep (m.entering (watching s) child) next)

include may back safe le ran

theorem Safe.leaving : c.Safe (m.leaving next) := by
  have entered : c.Safe { m with vars := {}, host := m.host.entering child } :=
    .of_lt safe.past (lt_entering may le)
  have later := (ran (lt_entering may le)).2 (entered.notice s .called)
  have now : Sight.now (m.leaving next) = .now m :=
    congrArg (fun contexts : List Context => (⟨contexts.tail.length, _⟩ : Sight)) back
  refine List.forall_mem_cons.2 ⟨?_, later.past⟩
  rw [now]
  exact safe _ List.mem_cons_self

theorem Safe.resume (truthy : Bool) : c.Safe (m.resume (watching s) child truthy next) := by
  have left := safe.leaving may back le ran
  have noticed := left.notice s (.returned child.contract truthy)
  cases truthy with
  | true => exact noticed
  | false => exact noticed.same rfl rfl rfl

end Call

theorem contexts_resume (truthy : Bool) (back : m.Restores next) :
    (m.resume (watching s) child truthy next).host.contexts = m.host.contexts := by
  cases truthy <;> exact back

theorem allows_deep (c : Constant) (s : Surroundings σ) :
    Allows .lax (watching s) (fun _ => c.Deep) fun _ => c.Deep where
  value _ := trivial
  admits := Regime.admits_lax
  own _ :=
    { refl _ := .same rfl rfl
      trans := .trans
      fail _ := .same rfl rfl
      after := .trans
      before := .trans
      vars _ _ := .same rfl rfl
      look _ _ _ := .same rfl rfl
      write _ _ _ _ _ := .same rfl rfl
      log _ _ := .same rfl rfl
      resolve _ _ _ found := .same rfl (Surroundings.notes_of_resolve found)
      meter _ _ _ := .same rfl rfl
      framed _ inside := inside
      framedError _ inside := inside
      entered := .notice s .entered
      left := .notice s .left }
  builtin m f _ _ := .notice s (.builtin f) m
  hosted m f _ _ := .notice s (.hosted f) m
  returned _ _ _ truthy may back ran deeper :=
    ⟨contexts_resume truthy back, fun safe =>
      safe.resume may back (Nat.le_of_lt deeper) ran truthy⟩
  broken _ _ _ may back ran deeper :=
    ⟨back, fun safe => safe.leaving may back (Nat.le_of_lt deeper) ran⟩

/-! ### The program of the constant -/

/-- The change that a part of the program of the constant makes. -/
structure Steady (c : Constant) (k : Phrase) (a b : Machine (σ × List Sight)) : Prop where
  leaves : k.Leaves a.vars.frames b.vars.frames
  contexts : b.host.contexts = a.host.contexts
  safe : a.host.callers.length = c.waiting → k.Ready a.vars.frames → c.Safe a → c.Safe b

variable {k : Phrase}

theorem Steady.trans (hab : c.Steady k a b) (hbd : c.Steady k b d) : c.Steady k a d where
  leaves := hab.leaves.trans hbd.leaves
  contexts := hbd.contexts.trans hab.contexts
  safe level ready safe :=
    hbd.safe (by rw [Host.callers, hab.contexts]; exact level) (ready.of_leaves hab.leaves)
      (hab.safe level ready safe)

theorem Steady.same (vars : b.vars = a.vars) (contexts : b.host.contexts = a.host.contexts)
    (notes : b.outside.2 = a.outside.2) : c.Steady k a b where
  leaves := by
    rw [vars]
    exact .refl k _
  contexts := contexts
  safe _ _ safe := safe.same (congrArg Variables.globals vars) contexts notes

theorem Steady.notice (s : Surroundings σ) (event : Event) (m : Machine (σ × List Sight)) :
    c.Steady k m (Exec.notice (watching s) event m) where
  leaves := .refl k _
  contexts := rfl
  safe _ _ safe := safe.notice s event

theorem Steady.widen (h : c.Steady .expression a b) : c.Steady .statement a b where
  leaves := by
    have same : b.vars.frames = a.vars.frames := h.leaves
    rw [same]
    exact .refl .statement _
  contexts := h.contexts
  safe level _ := h.safe level trivial

theorem still_steady (c : Constant) (s : Surroundings σ) (k : Phrase) :
    AllowsStill (watching s) (c.Steady k) (c.Steady k) where
  refl _ := .same rfl rfl rfl
  trans := .trans
  fail _ := .same rfl rfl rfl
  after := .trans
  before := .trans
  spent _ _ _ := .same rfl rfl rfl
  look _ _ _ := .same rfl rfl rfl
  write _ _ _ _ _ := .same rfl rfl rfl
  log _ _ := .same rfl rfl rfl
  resolve _ _ _ found := .same rfl rfl (Surroundings.notes_of_resolve found)

/-! ### Variables -/

/-- `Steady` for a change of the variables that leaves the constant in place. -/
theorem Steady.vars {v : Variables} (leaves : k.Leaves m.vars.frames v.frames)
    (kept : k.Ready m.vars.frames → m.vars.globals[c.name]? = some ⟨c.value, true⟩ →
      v.globals[c.name]? = some ⟨c.value, true⟩) :
    c.Steady k m { m with vars := v } where
  leaves := leaves
  contexts := rfl
  safe level ready safe :=
    List.forall_mem_cons.2 ⟨fun _ => kept ready (safe _ List.mem_cons_self level), safe.past⟩

/-- `declareGlobal` is `Steady` where it declares another name. -/
theorem steady_declareGlobal {name : String} (other : c.name ≠ name) (slot : Slot) :
    (Exec.vars (·.declareGlobal name slot) : Exec (σ × List Sight) Unit).Leads
      (c.Steady .expression) (c.Steady .expression) :=
  fun _ => .of_ok rfl (.vars rfl fun _ held => (Scope.getElem?_insert_of_ne other slot).trans held)

/-- `declare` is `Steady` for a statement, which declares in the innermost scope. -/
theorem steady_declare (name : String) (slot : Slot) :
    (Exec.vars (·.declare name slot) : Exec (σ × List Sight) Unit).Leads (c.Steady .statement)
      (c.Steady .statement) := by
  refine fun m => .of_ok rfl (.vars (m.vars.localChange_declare name slot) fun ready held => ?_)
  have kept := Variables.globals_declare ready name slot
  exact kept ▸ held

/-- `store` is `Steady`: where it means the constant it is refused, for the slot is
constant and a scalar has no inside. -/
theorem steady_store (scalar : c.value.scalar = true) (root : String) (keys : List PathKey)
    (v : Value) :
    (Evaluator.store root keys v : Exec (σ × List Sight) Unit).Leads (c.Steady .statement)
      (c.Steady .statement) := by
  intro m
  cases found : m.vars.find? root with
  | none => exact .of_error (bind_of_error (Exec.lookup_of_none found)) (.same rfl rfl rfl)
  | some slot =>
    have stored := Evaluator.store_apply found keys v
    split at stored
    · exact .of_error stored (.same rfl rfl rfl)
    next allowed =>
    cases written : Value.writePath v keys slot.value with
    | error f after =>
      rw [written] at stored
      exact .of_error stored (.same rfl rfl rfl)
    | ok _ updated =>
      rw [written] at stored
      refine .of_ok stored (.vars (m.vars.localChange_update root updated) fun _ held => ?_)
      refine (Variables.getElem?_globals_update ?_).trans held
      rintro rfl
      cases own : m.vars.own? c.name with
      | some shadow => rfl
      | none =>
        -- then the name means the constant
        have whole : m.vars.find? c.name = (m.vars.own? c.name).or m.vars.globals[c.name]? := rfl
        rw [found, own, held, Option.none_or] at whole
        cases whole
        cases keys with
        | nil => exact absurd rfl allowed
        | cons key rest =>
          rw [Value.writePath_of_scalar scalar] at written
          cases written

/-! ### Brackets -/

theorem Steady.scoped {next : Machine (σ × List Sight)}
    (h : c.Steady .statement { m with vars := m.vars.pushScope } next) :
    c.Steady .statement m { next with vars := next.vars.popScope } where
  leaves := Variables.localChange_popScope h.leaves
  contexts := h.contexts
  safe level ready safe := by
    have opened := safe.same (m.vars.globals_pushScope) rfl rfl
      (b := { m with vars := m.vars.pushScope })
    have ran := h.safe level (Variables.ready_pushScope ready) opened
    exact ran.same (next.vars.globals_popScope) rfl rfl

theorem steady_inScope {x : Exec (σ × List Sight) α}
    (h : x.Leads (c.Steady .statement) (c.Steady .statement)) :
    (Exec.inScope x).Leads (c.Steady .statement) (c.Steady .statement) := by
  intro m
  have opened : Exec.inScope x m = Exec.closing x
      (fun m => { m with vars := m.vars.popScope }) { m with vars := m.vars.pushScope } := rfl
  rcases h { m with vars := m.vars.pushScope } with ⟨a, next, ran, done⟩ | ⟨e, next, ran, failed⟩
  · exact .of_ok (opened.trans (Exec.closing_of_ok ran _)) done.scoped
  · exact .of_error (opened.trans (Exec.closing_of_error ran _)) failed.scoped

theorem Steady.framed {opened : Meter} {scope : Scope}
    (h : c.Steady .statement (m.inFrame opened scope) next) :
    c.Steady .expression m next.outFrame where
  leaves := LocalChange.tail h.leaves
  contexts := h.contexts
  safe level _ safe := h.safe level ⟨scope, [], _, rfl⟩ safe

theorem Steady.levelled (h : c.Steady k (m.inLevel (watching s)) next) :
    c.Steady k m (next.outLevel (watching s)) :=
  have opened : c.Steady k m (m.inLevel (watching s)) :=
    .trans (b := m.withMeter { m.host.meter with nesting := m.host.meter.nesting + 1 })
      (.same rfl rfl rfl) (.notice s .entered _)
  have closed : c.Steady k next (next.outLevel (watching s)) :=
    .trans (b := next.withMeter next.host.meter.exitNesting) (.same rfl rfl rfl) (.notice s .left _)
  (opened.trans h).trans closed

theorem steady_called (c : Constant) (s : Surroundings σ) :
    AllowsCall (watching s) (c.Steady .expression) (c.Steady .expression) c.Deep c.Deep where
  returned m next child truthy may _ back ran :=
    { leaves := congrArg Variables.frames (Machine.vars_resume _ m next child truthy)
      contexts := contexts_resume truthy back
      safe level _ safe := safe.resume may back (Nat.le_of_eq level.symm) ran truthy }
  broken _ _ _ may _ back ran :=
    { leaves := rfl
      contexts := back
      safe level _ safe := safe.leaving may back (Nat.le_of_eq level.symm) ran }

/-! ### All parts -/

/-- The parts of the program of a constant are `Steady`. -/
abbrev Related (c : Constant) : HoldingRelation (σ × List Sight) (σ × List Sight) :=
  fun _ k _ _ x _ => x.Leads (c.Steady k) (c.Steady k)

theorem steps_steady (s : Surroundings σ) (scalar : c.value.scalar = true) :
    ParametricSteps .lax (watching s) (watching s) (Related c) where
  toParametricExprs :=
    AllowsStill.exprs (fun _ => still_steady c s) (fun _ => trivial) fun _ => trivial
  widen hx := hx.mono .widen .widen
  declare _ name slot _ := steady_declare name slot
  store root keys v _ _ := steady_store scalar root keys v
  inScope := steady_inScope
  builtin f _ _ := .modify (.notice s (.builtin f))
  hosted f _ _ := .modify (.notice s (.hosted f))
  memory _ _ := (still_steady c s _).leads_spent Meter.spent_chargeMemory
  getState key _ := (still_steady c s _).leads_getState key
  putState key v _ _ := (still_steady c s _).leads_putState key v
  delState key _ := (still_steady c s _).leads_delState key
  told f _ _ := (still_steady c s _).leads_told f
  logLine line _ := (still_steady c s _).leads_logLine line

variable (s) (scalar : c.value.scalar = true)

include s scalar

theorem functions_steady {x : Evaluator (σ × List Sight)}
    (related : Evaluator.RelatedOn .lax (Related c) x x) :
    Evaluator.FunctionsRelatedOn .lax (Related c) x x := by
  intro p admitted name f found args _
  have steps := steps_steady s scalar
  exact steps.callFunction f args ((still_steady c s _).leads_inFrame _ (fun _ => .framed)
    (fun _ => .framed) (steps.execAll related admitted f.body (admitted.function found)))

/-- The induction is on the levels. -/
theorem related_ofLevels (level : Nat) :
    Evaluator.RelatedOn .lax (Related c) (Evaluator.ofLevels (watching s) level)
      (Evaluator.ofLevels (watching s) level) := by
  induction level with
  | zero =>
    exact ⟨fun _ _ _ => (still_steady c s _).leads_throw _,
      fun _ _ _ => (still_steady c s _).leads_throw _⟩
  | succ n below =>
    have calls : Evaluator.CallsRelatedOn .lax (watching s) (watching s) (Related c)
        (Evaluator.ofLevels (watching s) n) (Evaluator.ofLevels (watching s) n) :=
      fun _ target method args _ => AllowsStill.leads_callContract (fun _ => steady_called c s)
        (Evaluator.keepsContexts_ofLevels (watching s) n) ((allows_deep c s).run_ofLevels n)
        (still_steady c s _) target method args
    exact (steps_steady s scalar).above below (functions_steady s scalar below) calls
      (fun _ => (still_steady c s _).leads_throw _)
      ((still_steady c s _).leads_nested (fun _ => .levelled) fun _ => .levelled)

/-- `initGlobals` is `Steady` for bindings of other names. -/
theorem initGlobals_steady (level : Nat) (p : Program) (bindings : List Binding)
    (others : c.name ∉ bindings.map Binding.name) :
    ((Evaluator.ofLevels (watching s) level).initGlobals p bindings).Leads
      (c.Steady .expression) (c.Steady .expression) := by
  have still := still_steady c s .expression
  induction bindings with
  | nil => exact still.leads_pure ()
  | cons b rest ih =>
    rw [List.map_cons, List.mem_cons, not_or] at others
    obtain ⟨other, others⟩ := others
    have value := (steps_steady s scalar).evalInit (p := p)
      (fun e allowed => (related_ofLevels s scalar level).eval (Regime.admits_lax p) e allowed)
      b.init fun _ _ => trivial
    exact still.leads_bind (still.leads_spent Meter.spent_chargeSteps) fun _ =>
      still.leads_bind value fun v => still.leads_bind (steady_declareGlobal other _) fun _ =>
        ih others

theorem start_steady (level : Nat) (p : Program) (name : String) (args : List Value) :
    ((Evaluator.ofLevels (watching s) level).start p name args).Leads (c.Steady .expression)
      (c.Steady .expression) :=
  (steps_steady s scalar).start (Regime.admits_lax p)
    (functions_steady s scalar (related_ofLevels s scalar level)) name args (Regime.each_lax args)

/-- `runOn` leaves a constant `Safe`, from its own binding on. -/
theorem runOn_safe (level : Nat) (p : Program) {b : Binding} (named : b.name = c.name)
    (constant : b.constant = true) {after : List Binding}
    (others : c.name ∉ after.map Binding.name) (name : String) (args : List Value)
    (mid : Machine σ) (here : mid.host.callers.length = c.waiting) :
    let last := (((Evaluator.ofLevels (watching s) level).runOn p b after name args
      c.value).finish (mid.noted [])).2
    last.host.callers.length = c.waiting ∧ c.Safe last := by
  let declared : Machine (σ × List Sight) :=
    { mid.noted [] with vars := mid.vars.declareGlobal c.name ⟨c.value, true⟩ }
  have placed : c.Safe declared :=
    List.forall_mem_singleton.2 fun _ => Std.ExtTreeMap.getElem?_insert_self
  have rest := (still_steady c s _).leads_bind (initGlobals_steady s scalar level p after others)
    fun _ => start_steady s scalar level p name args
  have ends := Exec.ends_finish ((Evaluator.ofLevels (watching s) level).runOn p b after name args
    c.value) (mid.noted [])
  unfold Evaluator.runOn at ends ⊢
  rw [named, constant] at ends ⊢
  rcases ends.of_bind with ⟨e, failed⟩ | ⟨u, first, ran, later⟩
  · cases failed
  · cases ran
    have steady := rest.ends later
    have level := congrArg (fun contexts => contexts.tail.length) steady.contexts
    exact ⟨level.trans here, steady.safe here trivial placed⟩

end Constant

/-- **Constants of the top level last.**  Let `runUpTo` have given a scalar to a constant
of a program that `parse` gives.  Then the slot of the constant in `globals` holds that
value at the end of the run, however it ends, and at every event before at which the
program runs (`sightsOn`). -/
theorem Evaluator.constants_last {source : String} {maxDepth : Nat} {p : Program}
    (parsed : Script.parse source maxDepth = .ok p) {before after : List Binding} {b : Binding}
    (place : p.globals = before ++ b :: after) (constant : b.constant = true)
    (s : Surroundings σ) (level : Nat) {m mid : Machine σ} {v : Value}
    (given : (ofLevels s level).runUpTo p before b m = .ok v mid) (scalar : v.scalar = true)
    (name : String) (args : List Value) :
    let whole := (ofLevels s level).run p name args
    whole m = (ofLevels s level).runOn p b after name args v mid ∧
      (whole.finish m).2.vars.globals[b.name]? = some ⟨v, true⟩ ∧
      ∀ sight ∈ sightsOn s level p b after name args v mid,
        sight.waiting = mid.host.callers.length → sight.globals[b.name]? = some ⟨v, true⟩ := by
  let c : Constant := ⟨mid.host.callers.length, b.name, v⟩
  have others : b.name ∉ after.map Binding.name := by
    have distinct := (parsed_sound parsed).1.distinct
    rw [place, List.map_append, List.map_cons, List.nodup_append] at distinct
    exact (List.nodup_cons.1 distinct.2.1).1
  have goesOn : (ofLevels s level).run p name args m =
      (ofLevels s level).runOn p b after name args v mid := by
    rw [run_eq_runUpTo_bind _ _ place]
    exact bind_of_ok given
  obtain ⟨here, safe⟩ :=
    Constant.runOn_safe (c := c) s scalar level p rfl constant others name args mid rfl
  have same : ((ofLevels s level).run p name args).finish m =
      ((ofLevels s level).runOn p b after name args v).finish mid := by
    unfold Exec.finish
    rw [goesOn]
  obtain ⟨later, ended⟩ := (noted_runOn s level p b after name args v).finish_noted mid []
  have inPlace := safe _ List.mem_cons_self here
  refine ⟨goesOn, ?_, safe.past⟩
  rw [ended] at inPlace
  rw [same]
  exact inPlace

namespace ShadowedConstant

/-- A constant that a parameter and another constant shadow before all of the top level is
there, and that a function would like to have a place inside. -/
def source : String := "const k = 3; let a = g(k);
  function g(k) \x7b k += 2; if (k > 6) \x7b const k = 0; return k; \x7d return g(k); \x7d
  function f() \x7b k.x = a; \x7d"

def machine : Machine Unit :=
  .start (.new (.new {} 1) {} (.forInvoke (Contract.specimen 0 []).id "" "f" .null 0)) ()

def evaluator : Evaluator Unit := .ofLevels .bare 9

/-- `constants_last` where the assignment is refused when all of the top level is there. -/
theorem k_lasts : ∃ p b after mid, Script.parse source 9 = .ok p ∧
    p.globals = [] ++ b :: after ∧ b.name = "k" ∧
      evaluator.runUpTo p [] b machine = .ok (.int 3) mid ∧
      ((evaluator.run p "f" []).finish machine).1.isOk = false ∧
      ((evaluator.run p "f" []).finish machine).2.vars.globals["k"]? = some ⟨.int 3, true⟩ ∧
      ∃ sight ∈ Evaluator.sightsOn .bare 9 p b after "f" [] (.int 3) mid,
        sight.globals.contains "a" = true ∧
          sight.globals["k"]? = some ⟨.int 3, true⟩ := by
  have evaluated : ((Script.parse source 9).toOption.any fun p => p.globals.head?.any fun b =>
      let begun := (evaluator.runUpTo p [] b).finish machine
      b.name = "k" && b.constant && begun.1.toOption = some (.int 3) &&
        !((evaluator.run p "f" []).finish machine).1.isOk &&
        (Evaluator.sightsOn .bare 9 p b p.globals.tail "f" [] (.int 3) begun.2).any fun sight =>
          sight.waiting = begun.2.host.callers.length && sight.globals.contains "a") = true := by
    decide +kernel
  obtain ⟨p, parsed, any⟩ := exists_ok_of_any evaluated
  obtain ⟨b, first, checked⟩ := (Option.any_eq_true _ _).1 any
  simp only [Bool.and_eq_true, decide_eq_true_eq, Bool.not_eq_true'] at checked
  obtain ⟨⟨⟨⟨named, constant⟩, begun⟩, fails⟩, seen⟩ := checked
  obtain ⟨after, rest⟩ := List.head?_eq_some_iff.1 first
  have place : p.globals = [] ++ b :: after := rest
  rw [rest, List.tail_cons] at seen
  obtain ⟨sight, mem, looked⟩ := List.any_eq_true.1 seen
  rw [Bool.and_eq_true, decide_eq_true_eq] at looked
  have given := Exec.eq_ok_of_finish (eq_ok_of_toOption begun)
  obtain ⟨-, ended, sights⟩ :=
    Evaluator.constants_last parsed place constant .bare 9 given rfl "f" []
  rw [named] at ended sights
  exact ⟨p, b, after, _, parsed, place, named, given, fails, ended, sight, mem, looked.2,
    sights sight mem looked.1⟩

end ShadowedConstant

end LedgerScript
