import LedgerScript.Proofs.Machine.Parts
import LedgerScript.Proofs.Script.Acts

/-!
# Relations that are closed under the parts of a run

A run is put together from few parts: charges, looks at variables, host
functions, and brackets that open something and close it again.  A relation
between the runs of two calls that is closed under each of these parts
(`ParametricParts`) relates the two runs of every expression, every statement
and every function of a level, as far as it relates those of the level below
(`ParametricParts.above`, `ParametricParts.run`).

Some relations are closed only as long as all values of a run have a property,
or as long as the program stays away from certain acts; a `Regime` says which.
-/

namespace LedgerScript

open Script (Program Expr Stmt Accessor Place Binding Function AssignOp BinaryOp Act)

/-! ## Regimes -/

/-- Results of runs, and what it means that every `Value` in one has a property. -/
class Holding (α : Type) where
  Each : (Value → Prop) → α → Prop
  each_of_forall : ∀ {P : Value → Prop}, (∀ v, P v) → ∀ a, Each P a

namespace Holding

instance : Holding Value := ⟨fun P v => P v, fun h v => h v⟩
instance : Holding PUnit := ⟨fun _ _ => True, fun _ _ => trivial⟩
instance : Holding Nat := ⟨fun _ _ => True, fun _ _ => trivial⟩
instance : Holding String := ⟨fun _ _ => True, fun _ _ => trivial⟩
instance : Holding Slot := ⟨fun P slot => P slot.value, fun h slot => h slot.value⟩

instance : Holding PathKey where
  Each P
    | .name _ => True
    | .value v => P v
  each_of_forall h
    | .name _ => trivial
    | .value v => h v

instance : Holding Flow where
  Each P
    | .result v => P v
    | _ => True
  each_of_forall h
    | .result v => h v
    | .onward | .leave | .again => trivial

instance {α β : Type} [Holding α] [Holding β] : Holding (α × β) where
  Each P a := Each P a.1 ∧ Each P a.2
  each_of_forall h a := ⟨each_of_forall h a.1, each_of_forall h a.2⟩

instance {α : Type} [Holding α] : Holding (List α) where
  Each P as := ∀ a ∈ as, Each P a
  each_of_forall h _ a _ := each_of_forall h a

end Holding

/-- What a run may rely on: a property of every `Value` in it, the acts that a `Program`
may have, and a property of new values before they are charged. -/
structure Regime where
  value : Value → Prop
  act : Program → Act → Prop
  fresh : Value → Prop := fun _ => True

namespace Regime

variable (g : Regime) (p : Program)

/-- Every value in a result has the property `g.value`. -/
abbrev Each {α : Type} [Holding α] (a : α) : Prop := Holding.Each g.value a

/-- The program may have all of some acts, as `g.act` says. -/
def Allows (acts : List Act) : Prop := ∀ act ∈ acts, g.act p act

/-- The program `Allows` all of its acts. -/
def Admits : Prop := g.Allows p p.acts

/-- The program may call a host function, as `g.act` says. -/
def Hosts : Prop := ∃ f : HostFunction, g.act p (.call f.name) ∧ p.functions[f.name]? = none

def lax : Regime where
  value _ := True
  act _ _ := True

/-- What is newly made of values is `fresh`. -/
structure Making (g : Regime) : Prop where
  str : ∀ t : String, g.fresh (.str t)
  list : ∀ {items : List Value}, g.Each items → g.fresh (.list items)
  map : ∀ {entries : List (String × Value)}, g.Each entries →
    g.fresh (.map (Entries.ofList entries))
  binary : ∀ {op : BinaryOp} {left right v : Value}, g.value left → g.value right →
    op.apply left right = .ok v → g.fresh v
  builtin : ∀ {f : Builtin} {args : List Value} {v : Value}, g.Each args →
    f.apply args = .ok v → g.fresh v

variable {g p}

theorem allows_append {first second : List Act} :
    g.Allows p (first ++ second) ↔ g.Allows p first ∧ g.Allows p second :=
  List.forall_mem_append

theorem allows_cons {act : Act} {rest : List Act} :
    g.Allows p (act :: rest) ↔ g.act p act ∧ g.Allows p rest :=
  List.forall_mem_cons

theorem allows_flatMap_cons {α : Type} {f : α → List Act} {a : α} {rest : List α} :
    g.Allows p ((a :: rest).flatMap f) ↔ g.Allows p (f a) ∧ g.Allows p (rest.flatMap f) := by
  rw [List.flatMap_cons, allows_append]

theorem Admits.function (h : g.Admits p) {name : String} {f : Function}
    (found : p.functions[name]? = some f) : g.Allows p (Stmt.actsOfBody f.body) :=
  fun act mem => h act (Program.mem_acts_of_function found mem)

theorem Admits.globals (h : g.Admits p) : g.Allows p (p.globals.flatMap Binding.acts) :=
  fun act mem => h act (List.mem_append_left _ mem)

theorem allows_chain {e : Expr} {path : List Accessor} (he : g.Allows p e.acts)
    (hpath : g.Allows p (path.flatMap Accessor.acts)) :
    g.Allows p (e.chain path).1.acts ∧ g.Allows p ((e.chain path).2.flatMap Accessor.acts) :=
  have whole : ∀ act, _ → g.act p act := fun act mem =>
    ((e.mem_acts_chain path).1 mem).elim (he act) (hpath act)
  ⟨fun act mem => whole act (.inl mem), fun act mem => whole act (.inr mem)⟩

theorem making_of_forall (h : ∀ v, g.fresh v) : g.Making :=
  ⟨fun _ => h _, fun _ => h _, fun _ => h _, fun _ _ _ => h _, fun _ _ => h _⟩

theorem admits_lax (p : Program) : lax.Admits p := fun _ _ => trivial

theorem each_lax {α : Type} [Holding α] (a : α) : lax.Each a :=
  Holding.each_of_forall (fun _ => trivial) a

end Regime

/-- A text or a number, which `chargeNew` charges for. -/
def Value.plain : Value → Bool
  | .str _ | .int _ => true
  | _ => false

/-! ## Closed relations -/

/-- The two sorts of parts that a program has. -/
inductive Phrase where
  | expression
  | statement

/-- A relation between the runs of two calls, for runs of every result. -/
abbrev RunRelation (σ τ : Type) := ∀ ⦃α : Type⦄, Exec σ α → Exec τ α → Prop

/-- The same for parts of some program with results that hold values. -/
abbrev HoldingRelation (σ τ : Type) :=
  Program → Phrase → ∀ ⦃α : Type⦄ [Holding α], Exec σ α → Exec τ α → Prop

/-- `R` is closed under every part that an expression is put together from but for
calls, as far as the regime allows for the part. -/
structure ParametricExprs {σ τ : Type} (g : Regime) (R : HoldingRelation σ τ) : Prop where
  null : g.value .null
  bool : ∀ b : Bool, g.value (.bool b)
  int : ∀ n : Int64, g.value (.int n)
  part : ∀ {v : Value} {keys : List PathKey} {found : Value × Nat},
    g.value v → v.readPath keys = .ok found → g.value found.1
  making : g.Making
  pure : ∀ (p : Program) (k : Phrase) {α : Type} [Holding α] (a : α), g.Each a →
    R p k (pure a) (pure a)
  bind : ∀ {p : Program} {k : Phrase} {α β : Type} [Holding α] [Holding β] {x : Exec σ α}
    {y : Exec τ α} {f : α → Exec σ β} {g' : α → Exec τ β}, R p k x y →
    (∀ a, g.Each a → R p k (f a) (g' a)) → R p k (x >>= f) (y >>= g')
  fault : ∀ (p : Program) {α : Type} [Holding α] (f : ScriptFault),
    R p .expression (Exec.fault f : Exec σ α) (Exec.fault f)
  steps : ∀ (p : Program) (n : Nat), R p .expression (Exec.metered (Meter.chargeSteps n))
    (Exec.metered (Meter.chargeSteps n))
  /-- A new value has the property of all values because it is fresh or because
  it is charged. -/
  made : ∀ (p : Program) (v : Value), g.fresh v →
    R p .expression (Exec.chargeNew v >>= fun _ => Pure.pure v)
      (Exec.chargeNew v >>= fun _ => Pure.pure v)
  lookup : ∀ (p : Program) (name : String), R p .expression (Exec.lookup name) (Exec.lookup name)

/-- `R` is closed under every part that the body of a function is put together from
but for frames, levels, loops and calls between contracts; what holds of expressions
holds of statements, too. -/
structure ParametricSteps {σ τ : Type} (g : Regime) (s : Surroundings σ) (t : Surroundings τ)
    (R : HoldingRelation σ τ) : Prop extends ParametricExprs g R where
  widen : ∀ {p : Program} {α : Type} [Holding α] {x : Exec σ α} {y : Exec τ α},
    R p .expression x y → R p .statement x y
  declare : ∀ (p : Program) (name : String) (slot : Slot), g.value slot.value →
    R p .statement (Exec.vars (·.declare name slot)) (Exec.vars (·.declare name slot))
  store : ∀ {p : Program} (root : String) (keys : List PathKey) (v : Value), g.value v →
    keys = [] ∨ g.act p (.change root) →
    R p .statement (Evaluator.store root keys v) (Evaluator.store root keys v)
  inScope : ∀ {p : Program} {α : Type} [Holding α] {x : Exec σ α} {y : Exec τ α},
    R p .statement x y → R p .statement (Exec.inScope x) (Exec.inScope y)
  builtin : ∀ {p : Program} (f : Builtin), g.act p (.call f.name) → p.functions[f.name]? = none →
    R p .expression (modify (Exec.notice s (.builtin f))) (modify (Exec.notice t (.builtin f)))
  hosted : ∀ {p : Program} (f : HostFunction), g.act p (.call f.name) →
    p.functions[f.name]? = none →
    R p .expression (modify (Exec.notice s (.hosted f))) (modify (Exec.notice t (.hosted f)))
  memory : ∀ {p : Program} (n : Nat), g.Hosts p →
    R p .expression (Exec.metered (Meter.chargeMemory n)) (Exec.metered (Meter.chargeMemory n))
  getState : ∀ {p : Program} (key : String), g.Hosts p →
    R p .expression (Exec.getState s key) (Exec.getState t key)
  putState : ∀ {p : Program} (key : String) (v : Value), g.value v → g.Hosts p →
    R p .expression (Exec.putState s key v) (Exec.putState t key v)
  delState : ∀ {p : Program} (key : String), g.Hosts p →
    R p .expression (Exec.delState s key) (Exec.delState t key)
  told : ∀ {p : Program} (f : String → ContractId → UInt64 → Value),
    (∀ caller contract height, (f caller contract height).plain = true) → g.Hosts p →
    R p .expression (Exec.told f) (Exec.told f)
  logLine : ∀ {p : Program} (line : String), g.Hosts p →
    R p .expression (Exec.logLine line) (Exec.logLine line)

/-- `R` is closed under what happens on the top level, too. -/
structure ParametricPhrases {σ τ : Type} (g : Regime) (s : Surroundings σ) (t : Surroundings τ)
    (R : HoldingRelation σ τ) : Prop extends ParametricSteps g s t R where
  missing : ∀ (p : Program) (entry : EntryPoint),
    R p .expression (throw (.missingEntryPoint entry) : Exec σ Value)
      (throw (.missingEntryPoint entry))
  declareGlobal : ∀ (p : Program) (name : String) (slot : Slot), g.value slot.value →
    R p .expression (Exec.vars (·.declareGlobal name slot)) (Exec.vars (·.declareGlobal name slot))

/-- `R` is closed under frames, too. -/
structure ParametricBodies {σ τ : Type} (g : Regime) (s : Surroundings σ) (t : Surroundings τ)
    (R : HoldingRelation σ τ) : Prop extends ParametricPhrases g s t R where
  inFrame : ∀ {p : Program} {α : Type} [Holding α] (params : List String) (args : List Value)
    {x : Exec σ α} {y : Exec τ α}, g.Each args → R p .statement x y →
    R p .expression (Exec.inFrame (Variables.bindArgs ∅ params args) x)
      (Exec.inFrame (Variables.bindArgs ∅ params args) y)

/-- `R` is closed under levels and loops, too. -/
structure ParametricParts {σ τ : Type} (g : Regime) (s : Surroundings σ) (t : Surroundings τ)
    (R : HoldingRelation σ τ) : Prop extends ParametricBodies g s t R where
  ground : ∀ (p : Program) {α : Type} [Holding α],
    R p .expression (throw Meter.nestingExhausted : Exec σ α) (throw Meter.nestingExhausted)
  turns : ∀ (p : Program) {α : Type} [Holding α],
    R p .expression (throw Meter.turnsExhausted : Exec σ α) (throw Meter.turnsExhausted)
  nested : ∀ {p : Program} {k : Phrase} {α : Type} [Holding α] {x : Exec σ α} {y : Exec τ α},
    R p k x y → R p k (Evaluator.nested s x) (Evaluator.nested t y)

/-- The evaluators of two levels are related part by part. -/
structure Evaluator.RelatedOn {σ τ : Type} (g : Regime) (R : HoldingRelation σ τ)
    (x : Evaluator σ) (y : Evaluator τ) : Prop where
  eval : ∀ {p : Program}, g.Admits p → ∀ e : Expr, g.Allows p e.acts →
    R p .expression (x.eval p e) (y.eval p e)
  exec : ∀ {p : Program}, g.Admits p → ∀ stmt : Stmt, g.Allows p stmt.acts →
    R p .statement (x.exec p stmt) (y.exec p stmt)

/-- The calls of functions that two levels make are related. -/
def Evaluator.FunctionsRelatedOn {σ τ : Type} (g : Regime) (R : HoldingRelation σ τ)
    (x : Evaluator σ) (y : Evaluator τ) : Prop :=
  ∀ {p : Program}, g.Admits p → ∀ {name : String} {f : Function},
    p.functions[name]? = some f → ∀ args : List Value, g.Each args →
      R p .expression (x.callFunction p f args) (y.callFunction p f args)

/-- The calls between contracts that two levels make are related. -/
def Evaluator.CallsRelatedOn {σ τ : Type} (g : Regime) (s : Surroundings σ)
    (t : Surroundings τ) (R : HoldingRelation σ τ) (x : Evaluator σ) (y : Evaluator τ) : Prop :=
  ∀ {p : Program}, g.Hosts p → ∀ (target method : String) (args : Value), g.value args →
    R p .expression (x.callContract s target method args) (y.callContract t target method args)

namespace ParametricExprs

variable {σ τ : Type} {g : Regime} {R : HoldingRelation σ τ} {x : Evaluator σ} {y : Evaluator τ}
  {p : Program}

section Parts

variable (h : ParametricExprs g R)

include h

theorem compute {α : Type} [Holding α] (v : Except ScriptFault α)
    (hv : ∀ a, v = .ok a → g.Each a) : R p .expression (Exec.compute v) (Exec.compute v) := by
  cases v with
  | ok a => exact h.pure _ _ a (hv a rfl)
  | error f => exact h.fault _ f

theorem chargeCopy (v : Value) (scanned : Nat) :
    R p .expression (Exec.chargeCopy v scanned) (Exec.chargeCopy v scanned) := by
  unfold Exec.chargeCopy Meter.chargeCopy
  split
  · exact h.pure _ _ () trivial
  · exact h.steps _ _

theorem readInto (v : Value) (keys : List PathKey) (hv : g.value v) :
    R p .expression (Evaluator.readInto v keys) (Evaluator.readInto v keys) :=
  h.bind (h.compute (v.readPath keys) fun _ found => ⟨h.part hv found, trivial⟩)
    fun found inside => h.bind (h.chargeCopy found.1 found.2) fun _ _ =>
      h.pure _ _ found.1 inside.1

/-- What `compute` gives and `chargeNew` charges for is related to itself. -/
theorem computeNew (v : Except ScriptFault Value) (hv : ∀ a, v = .ok a → g.fresh a) :
    R p .expression (Exec.compute v >>= fun v => Exec.chargeNew v >>= fun _ => Pure.pure v)
      (Exec.compute v >>= fun v => Exec.chargeNew v >>= fun _ => Pure.pure v) := by
  cases v with
  | ok v => exact h.made p v (hv v rfl)
  | error f => exact h.fault p f

theorem combine (op : BinaryOp) (root : String) (keys : List PathKey) (rhs : Value)
    (hrhs : g.value rhs) :
    R p .expression (Evaluator.combine op root keys rhs) (Evaluator.combine op root keys rhs) :=
  h.bind (h.lookup p root) fun slot held => h.bind (h.readInto slot.value keys held)
    fun current hcurrent => h.computeNew (op.apply current rhs)
      fun _ => h.making.binary hcurrent hrhs

/-- `UnaryOp.apply` gives a scalar. -/
theorem each_unary (op : Script.UnaryOp) (v : Value) :
    ∀ a, op.apply v = .ok a → g.Each a := by
  intro a applied
  unfold Script.UnaryOp.apply at applied
  split at applied
  · cases applied
    exact h.bool _
  · obtain ⟨r, rfl, -⟩ := exact_eq_ok_iff.1 applied
    exact h.int r
  · cases applied

end Parts

section Evaluation

variable (h : ParametricExprs g R)
  (eval : ∀ e : Expr, g.Allows p e.acts → R p .expression (x.eval p e) (y.eval p e))

include h eval

theorem evalAll (items : List Expr) (ha : g.Allows p (Expr.actsOfItems items)) :
    R p .expression (x.evalAll p items) (y.evalAll p items) := by
  induction items with
  | nil => exact h.pure _ _ [] (List.forall_mem_nil _)
  | cons item rest ih =>
    rw [Expr.actsOfItems, Regime.allows_append] at ha
    exact h.bind (eval item ha.1) fun v hv => h.bind (ih ha.2) fun vs hvs =>
      h.pure _ _ _ (List.forall_mem_cons.2 ⟨hv, hvs⟩)

theorem evalEntries (entries : List (String × Expr))
    (ha : g.Allows p (Expr.actsOfEntries entries)) :
    R p .expression (x.evalEntries p entries) (y.evalEntries p entries) := by
  induction entries with
  | nil => exact h.pure _ _ [] (List.forall_mem_nil _)
  | cons e rest ih =>
    rw [Expr.actsOfEntries, Regime.allows_append] at ha
    exact h.bind (eval e.2 ha.1) fun v hv => h.bind (ih ha.2) fun vs hvs =>
      h.pure _ _ _ (List.forall_mem_cons.2 ⟨⟨trivial, hv⟩, hvs⟩)

theorem evalKeys (path : List Accessor) (ha : g.Allows p (path.flatMap Accessor.acts)) :
    R p .expression (x.evalKeys p path) (y.evalKeys p path) := by
  induction path with
  | nil => exact h.pure _ _ [] (List.forall_mem_nil _)
  | cons a rest ih =>
    rw [Regime.allows_flatMap_cons] at ha
    cases a with
    | member name =>
      exact h.bind (ih ha.2) fun keys hkeys =>
        h.pure _ _ _ (List.forall_mem_cons.2 ⟨trivial, hkeys⟩)
    | index key =>
      exact h.bind (eval key ha.1) fun v hv => h.bind (ih ha.2) fun keys hkeys =>
        h.pure _ _ _ (List.forall_mem_cons.2 ⟨hv, hkeys⟩)

theorem evalInit (e : Option Expr) (ha : g.Allows p ((e.map Expr.acts).getD [])) :
    R p .expression (x.evalInit p e) (y.evalInit p e) := by
  cases e with
  | none => exact h.pure _ _ Value.null h.null
  | some e => exact eval e ha

theorem readChain (root : Expr) (path : List Accessor) (hroot : g.Allows p root.acts)
    (hpath : g.Allows p (path.flatMap Accessor.acts)) :
    R p .expression (x.readChain p root path) (y.readChain p root path) := by
  have evaluated : R p .expression
      (x.eval p root >>= fun v => x.evalKeys p path >>= fun keys => Evaluator.readInto v keys)
      (y.eval p root >>= fun v => y.evalKeys p path >>= fun keys => Evaluator.readInto v keys) :=
    h.bind (eval root hroot) fun v hv =>
      h.bind (h.evalKeys eval path hpath) fun keys _ => h.readInto v keys hv
  cases root with
  | ident name =>
    exact h.bind (h.evalKeys eval path hpath) fun keys _ => h.bind (h.lookup p name)
      fun slot held => h.readInto slot.value keys held
  | _ => exact evaluated

/-- `evalBody` is related where calls are. -/
theorem evalBody {s : Surroundings σ} {t : Surroundings τ}
    (call : ∀ (name : String) (args : List Value), g.act p (.call name) → g.Each args →
      R p .expression (x.call s p name args) (y.call t p name args))
    (e : Expr) (ha : g.Allows p e.acts) :
    R p .expression (x.evalBody s p e) (y.evalBody t p e) := by
  have nothing : g.Allows p [] := List.forall_mem_nil _
  cases e with
  | null => exact h.pure _ _ Value.null h.null
  | bool b => exact h.pure _ _ (Value.bool b) (h.bool b)
  | int n => exact h.pure _ _ (Value.int n) (h.int n)
  | str text => exact h.made p (.str text) (h.making.str text)
  | ident name =>
    exact h.bind (h.lookup p name) fun slot held =>
      h.bind (h.chargeCopy slot.value 0) fun _ _ => h.pure _ _ slot.value held
  | list items =>
    rw [Expr.acts] at ha
    exact h.bind (h.evalAll eval items ha) fun vs hvs =>
      h.made p (.list vs) (h.making.list hvs)
  | map entries =>
    rw [Expr.acts] at ha
    exact h.bind (h.evalEntries eval entries ha) fun vs hvs =>
      h.made p (.map (Entries.ofList vs)) (h.making.map hvs)
  | member base name =>
    rw [Expr.acts] at ha
    have hname : g.Allows p ([Accessor.member name].flatMap Accessor.acts) := nothing
    obtain ⟨hroot, hpath⟩ := Regime.allows_chain ha hname
    exact h.readChain eval _ _ hroot hpath
  | index base key =>
    rw [Expr.acts, Regime.allows_append] at ha
    have hkey : g.Allows p ([Accessor.index key].flatMap Accessor.acts) :=
      Regime.allows_flatMap_cons.2 ⟨ha.2, nothing⟩
    obtain ⟨hroot, hpath⟩ := Regime.allows_chain ha.1 hkey
    exact h.readChain eval _ _ hroot hpath
  | call name args =>
    rw [Expr.acts, Regime.allows_cons] at ha
    exact h.bind (h.evalAll eval args ha.2) fun args hargs =>
      call name args ha.1 hargs
  | unary op operand =>
    rw [Expr.acts] at ha
    exact h.bind (eval operand ha) fun v _ => h.compute (op.apply v) (h.each_unary op v)
  | binary op left right =>
    rw [Expr.acts, Regime.allows_append] at ha
    exact h.bind (eval left ha.1) fun left hl => h.bind (eval right ha.2)
      fun right hr => h.computeNew (op.apply left right) fun _ => h.making.binary hl hr
  | logical op left right =>
    rw [Expr.acts, Regime.allows_append] at ha
    refine h.bind (eval left ha.1) fun v hv => ?_
    cases op <;> cases truthy : v.truthy <;> simp only
    · exact h.pure _ _ v hv
    · exact eval right ha.2
    · exact eval right ha.2
    · exact h.pure _ _ v hv

end Evaluation

end ParametricExprs

namespace ParametricSteps

variable {σ τ : Type} {g : Regime} {s : Surroundings σ} {t : Surroundings τ}
  {R : HoldingRelation σ τ} {x : Evaluator σ} {y : Evaluator τ} {p : Program}

/-- `callFunction` is related where `inFrame` is. -/
theorem callFunction (h : ParametricSteps g s t R) (f : Function) (args : List Value)
    (framed : R p .expression
      (Exec.inFrame (Variables.bindArgs ∅ f.params args) (x.execAll p f.body))
      (Exec.inFrame (Variables.bindArgs ∅ f.params args) (y.execAll p f.body))) :
    R p .expression (x.callFunction p f args) (y.callFunction p f args) := by
  rw [Evaluator.callFunction_eq, Evaluator.callFunction_eq]
  refine h.bind framed fun flow hflow => ?_
  cases flow with
  | result v => exact h.pure _ _ v hflow
  | onward => exact h.pure _ _ Value.null h.null
  | leave => exact h.pure _ _ Value.null h.null
  | again => exact h.pure _ _ Value.null h.null

theorem start (h : ParametricSteps g s t R) (hp : g.Admits p)
    (functions : Evaluator.FunctionsRelatedOn g R x y) (name : String) (args : List Value)
    (hargs : g.Each args) : R p .expression (x.start p name args) (y.start p name args) := by
  unfold Evaluator.start
  cases found : p.functions[name]? with
  | some f => exact functions hp found args hargs
  | none => exact h.fault p (.undefinedFunction name)

section Programs

variable (h : ParametricSteps g s t R) (hxy : Evaluator.RelatedOn g R x y) (hp : g.Admits p)

include h hxy hp

/-! ### Sequences -/

theorem execAll (body : List Stmt) (ha : g.Allows p (Stmt.actsOfBody body)) :
    R p .statement (x.execAll p body) (y.execAll p body) := by
  induction body with
  | nil => exact h.pure _ _ Flow.onward trivial
  | cons stmt rest ih =>
    rw [Stmt.actsOfBody, Regime.allows_append] at ha
    refine h.bind (hxy.exec hp stmt ha.1) fun flow hflow => ?_
    cases flow with
    | onward => exact ih ha.2
    | leave => exact h.pure _ _ Flow.leave trivial
    | again => exact h.pure _ _ Flow.again trivial
    | result v => exact h.pure _ _ (Flow.result v) hflow

theorem execBlock (body : List Stmt) (ha : g.Allows p (Stmt.actsOfBody body)) :
    R p .statement (x.execBlock p body) (y.execBlock p body) := by
  rw [Evaluator.execBlock_eq, Evaluator.execBlock_eq]
  exact h.inScope (h.execAll hxy hp body ha)

end Programs

/-! ### The host -/

section Hosts

variable (h : ParametricSteps g s t R) (calls : Evaluator.CallsRelatedOn g s t R x y)
  (host : g.Hosts p)

include h

theorem wantText (f : HostFunction) (v : Value) :
    R p .expression (Evaluator.wantText f v) (Evaluator.wantText f v) := by
  unfold Evaluator.wantText
  cases v.str? with
  | some text => exact h.pure _ _ text trivial
  | none => exact h.fault p (.notString f.name v.kind)

include host

theorem writeLog (args : List Value) :
    R p .expression (Evaluator.writeLog args) (Evaluator.writeLog args) := by
  rw [Evaluator.writeLog_eq, Evaluator.writeLog_eq]
  exact h.bind (h.memory _ host) fun _ _ => h.bind (h.logLine _ host) fun _ _ =>
    h.pure _ _ _ h.null

include calls

theorem hostBody (f : HostFunction) (args : List Value) (hargs : g.Each args) :
    R p .expression (x.hostBody s f args) (y.hostBody t f args) := by
  fun_cases Evaluator.hostBody s x f args
  case case1 key =>
    exact h.bind (h.wantText _ key) fun key _ => h.bind (h.getState key host) fun v hv =>
      h.bind (h.memory v.size host) fun _ _ => h.pure _ _ v hv
  case case2 key v =>
    have hv : g.value v := hargs v (by simp)
    exact h.bind (h.wantText _ key) fun key _ => h.bind (h.putState key v hv host) fun size _ =>
      h.bind (h.memory size host) fun _ _ => h.pure _ _ _ (h.bool true)
  case case3 key =>
    exact h.bind (h.wantText _ key) fun key _ => h.bind (h.delState key host) fun _ _ =>
      h.pure _ _ _ (h.bool true)
  case case4 => exact h.told _ (fun _ _ _ => rfl) host
  case case5 => exact h.told _ (fun _ _ _ => rfl) host
  case case6 => exact h.told _ (fun _ _ _ => rfl) host
  case case7 target method args =>
    have hlast : g.value args := hargs args (by simp)
    exact h.bind (h.wantText _ target) fun target _ => h.bind (h.wantText _ method)
      fun method _ => calls host target method args hlast
  case case8 => exact h.writeLog host args
  case case9 =>
    simp only [Evaluator.hostBody]
    exact h.fault p _

theorem callHost (f : HostFunction) (args : List Value) (hargs : g.Each args) :
    R p .expression (x.callHost s f args) (y.callHost t f args) := by
  rw [Evaluator.callHost_eq, Evaluator.callHost_eq]
  exact h.bind (h.steps p f.cost) fun _ _ => h.hostBody calls host f args hargs

end Hosts

section Phrases

variable (h : ParametricSteps g s t R) (hxy : Evaluator.RelatedOn g R x y) (hp : g.Admits p)

include h hp

theorem call (functions : Evaluator.FunctionsRelatedOn g R x y)
    (calls : Evaluator.CallsRelatedOn g s t R x y) (name : String) (args : List Value)
    (act : g.act p (.call name)) (hargs : g.Each args) :
    R p .expression (x.call s p name args) (y.call t p name args) := by
  unfold Evaluator.call
  cases found : p.functions[name]? with
  | some f => exact functions hp found args hargs
  | none =>
    cases builtin : Builtin.ofName? name with
    | some f =>
      obtain rfl := Builtin.name_of_ofName? builtin
      exact h.bind (h.builtin f act found) fun _ _ =>
        h.computeNew (f.apply args) fun _ => h.making.builtin hargs
    | none =>
      cases hosted : HostFunction.ofName? name with
      | some f =>
        obtain rfl := HostFunction.name_of_ofName? hosted
        exact h.bind (h.hosted f act found) fun _ _ =>
          h.callHost calls ⟨f, act, found⟩ f args hargs
      | none => exact h.fault p (.undefinedFunction name)

include hxy

theorem evalBody (functions : Evaluator.FunctionsRelatedOn g R x y)
    (calls : Evaluator.CallsRelatedOn g s t R x y) (e : Expr) (ha : g.Allows p e.acts) :
    R p .expression (x.evalBody s p e) (y.evalBody t p e) :=
  h.toParametricExprs.evalBody (hxy.eval hp) (h.call hp functions calls) e ha

/-! ### Statements -/

theorem assignAt (root : String) (keys : List PathKey) (op : AssignOp) (value : Expr)
    (ha : g.Allows p value.acts) (hkeys : keys = [] ∨ g.act p (.change root)) :
    R p .statement (x.assignAt p root keys op value) (y.assignAt p root keys op value) := by
  refine h.bind (h.widen (hxy.eval hp value ha)) fun rhs hrhs => ?_
  cases op with
  | set => exact h.store root keys rhs hrhs hkeys
  | add =>
    exact h.bind (h.widen (h.combine .add root keys rhs hrhs)) fun v hv => h.store _ _ v hv hkeys
  | sub =>
    exact h.bind (h.widen (h.combine .sub root keys rhs hrhs)) fun v hv => h.store _ _ v hv hkeys

theorem assign (target : Place) (op : AssignOp) (value : Expr)
    (ha : g.Allows p (target.acts ++ target.path.flatMap Accessor.acts ++ value.acts)) :
    R p .statement (x.assign p target op value) (y.assign p target op value) := by
  rw [Regime.allows_append, Regime.allows_append] at ha
  obtain ⟨⟨place, path⟩, hvalue⟩ := ha
  rw [Evaluator.assign_eq, Evaluator.assign_eq]
  obtain ⟨root, accessors⟩ := target
  cases accessors with
  | nil => exact h.assignAt hxy hp root [] op value hvalue (.inl rfl)
  | cons first rest =>
    have inside : g.act p (.change root) := place _ (List.mem_singleton_self _)
    exact h.bind (h.widen (h.evalKeys (hxy.eval hp) _ path)) fun keys _ =>
      h.assignAt hxy hp root keys op value hvalue (.inr inside)

/-- `turn` is related where loops that turn too often are. -/
theorem turn (turns : R p .expression (throw Meter.turnsExhausted : Exec σ Flow)
      (throw Meter.turnsExhausted)) (condition : Expr) (body : List Stmt) (n : Nat)
    (ha : g.Allows p condition.acts) (hb : g.Allows p (Stmt.actsOfBody body)) :
    R p .statement (x.turn p condition body n) (y.turn p condition body n) := by
  induction n with
  | zero => exact h.widen turns
  | succ n ih =>
    refine h.bind (h.widen (hxy.eval hp condition ha)) fun v _ => ?_
    split
    · refine h.bind (h.execBlock hxy hp body hb) fun flow hflow => ?_
      cases flow with
      | onward => exact ih
      | leave => exact h.pure _ _ Flow.onward trivial
      | again => exact ih
      | result v => exact h.pure _ _ (Flow.result v) hflow
    · exact h.pure _ _ Flow.onward trivial

/-- `execBody` is related where loops are. -/
theorem execBody (stmt : Stmt) (ha : g.Allows p stmt.acts)
    (loops : ∀ condition body, stmt = .loop condition body →
      R p .statement (x.turn p condition body maxTurns) (y.turn p condition body maxTurns)) :
    R p .statement (x.execBody p stmt) (y.execBody p stmt) := by
  cases stmt with
  | declare b =>
    rw [Stmt.acts] at ha
    exact h.bind (h.widen (h.evalInit (hxy.eval hp) b.init ha)) fun v hv =>
      h.bind (h.declare p b.name ⟨v, b.constant⟩ hv) fun _ _ => h.pure _ _ Flow.onward trivial
  | assign target op value =>
    rw [Stmt.acts] at ha
    exact h.bind (h.assign hxy hp target op value ha) fun _ _ => h.pure _ _ Flow.onward trivial
  | branch condition yes no =>
    rw [Stmt.acts, Regime.allows_append, Regime.allows_append] at ha
    refine h.bind (h.widen (hxy.eval hp condition ha.1.1)) fun v _ => ?_
    split
    · exact h.execBlock hxy hp yes ha.1.2
    · exact h.execBlock hxy hp no ha.2
  | loop condition body => exact loops condition body rfl
  | block body =>
    rw [Stmt.acts] at ha
    exact h.execBlock hxy hp body ha
  | leave => exact h.pure _ _ Flow.leave trivial
  | again => exact h.pure _ _ Flow.again trivial
  | result value =>
    have hvalue : g.Allows p ((value.map Expr.acts).getD []) := by
      cases value <;> exact ha
    exact h.bind (h.widen (h.evalInit (hxy.eval hp) value hvalue)) fun v hv =>
      h.pure _ _ (Flow.result v) hv
  | fail value =>
    rw [Stmt.acts] at ha
    exact h.bind (h.widen (hxy.eval hp value ha)) fun v _ =>
      h.widen (h.fault p (.uncaught v.shown))
  | evaluate value =>
    rw [Stmt.acts] at ha
    exact h.bind (h.widen (hxy.eval hp value ha)) fun _ _ => h.pure _ _ Flow.onward trivial

end Phrases

/-- The parts of a level are related to those of the level above where calls are, and
loops that turn too often, and what is nested. -/
theorem above (h : ParametricSteps g s t R) (hxy : Evaluator.RelatedOn g R x y)
    (functions : Evaluator.FunctionsRelatedOn g R x y)
    (calls : Evaluator.CallsRelatedOn g s t R x y)
    (turns : ∀ (p : Program) {α : Type} [Holding α],
      R p .expression (throw Meter.turnsExhausted : Exec σ α) (throw Meter.turnsExhausted))
    (nested : ∀ {p : Program} {k : Phrase} {α : Type} [Holding α] {x : Exec σ α} {y : Exec τ α},
      R p k x y → R p k (Evaluator.nested s x) (Evaluator.nested t y)) :
    Evaluator.RelatedOn g R (x.above s) (y.above t) where
  eval hp e ha := nested (h.evalBody hxy hp functions calls e ha)
  exec hp stmt ha := by
    refine nested (h.execBody hxy hp stmt ha fun condition body loop => ?_)
    rw [loop, Stmt.acts, Regime.allows_append] at ha
    exact h.turn hxy hp (turns _) condition body maxTurns ha.1 ha.2

end ParametricSteps

namespace ParametricPhrases

variable {σ τ : Type} {g : Regime} {s : Surroundings σ} {t : Surroundings τ}
  {R : HoldingRelation σ τ} {x : Evaluator σ} {y : Evaluator τ} {p : Program}
  (h : ParametricPhrases g s t R) (hxy : Evaluator.RelatedOn g R x y) (hp : g.Admits p)

include h hxy hp

theorem initGlobals (bindings : List Binding) (ha : g.Allows p (bindings.flatMap Binding.acts)) :
    R p .expression (x.initGlobals p bindings) (y.initGlobals p bindings) := by
  induction bindings with
  | nil => exact h.pure _ _ () trivial
  | cons b rest ih =>
    rw [Regime.allows_flatMap_cons] at ha
    exact h.bind (h.steps p 1) fun _ _ => h.bind (h.evalInit (hxy.eval hp) b.init ha.1) fun v hv =>
      h.bind (h.declareGlobal p b.name ⟨v, b.constant⟩ hv) fun _ _ => ih ha.2

theorem run (functions : Evaluator.FunctionsRelatedOn g R x y) (name : String)
    (args : List Value) (hargs : g.Each args) :
    R p .expression (x.run p name args) (y.run p name args) := by
  rw [Evaluator.run_eq, Evaluator.run_eq]
  exact h.bind (h.initGlobals hxy hp p.globals hp.globals) fun _ _ =>
    h.start hp functions name args hargs

end ParametricPhrases

namespace ParametricBodies

variable {σ τ : Type} {g : Regime} {s : Surroundings σ} {t : Surroundings τ}
  {R : HoldingRelation σ τ} {x : Evaluator σ} {y : Evaluator τ} {p : Program}
  (h : ParametricBodies g s t R) (hxy : Evaluator.RelatedOn g R x y)

include h hxy

theorem functions : Evaluator.FunctionsRelatedOn g R x y := fun hp _ _ found args hargs =>
  h.callFunction _ args (h.inFrame _ args hargs (h.execAll hxy hp _ (hp.function found)))

theorem run (hp : g.Admits p) (name : String) (args : List Value) (hargs : g.Each args) :
    R p .expression (x.run p name args) (y.run p name args) :=
  h.toParametricPhrases.run hxy hp (h.functions hxy) name args hargs

theorem evalBody (hp : g.Admits p) (calls : Evaluator.CallsRelatedOn g s t R x y) (e : Expr)
    (ha : g.Allows p e.acts) : R p .expression (x.evalBody s p e) (y.evalBody t p e) :=
  h.toParametricPhrases.evalBody hxy hp (h.functions hxy) calls e ha

end ParametricBodies

namespace ParametricParts

variable {σ τ : Type} {g : Regime} {s : Surroundings σ} {t : Surroundings τ}
  {R : HoldingRelation σ τ} {x : Evaluator σ} {y : Evaluator τ} {p : Program}
  (h : ParametricParts g s t R) (hxy : Evaluator.RelatedOn g R x y)

include h hxy

theorem execBody (hp : g.Admits p) (stmt : Stmt) (ha : g.Allows p stmt.acts) :
    R p .statement (x.execBody p stmt) (y.execBody p stmt) := by
  refine h.toParametricPhrases.execBody hxy hp stmt ha fun condition body loop => ?_
  rw [loop, Stmt.acts, Regime.allows_append] at ha
  exact h.turn hxy hp (h.turns p) condition body maxTurns ha.1 ha.2

theorem above (calls : Evaluator.CallsRelatedOn g s t R x y) :
    Evaluator.RelatedOn g R (x.above s) (y.above t) :=
  h.toParametricSteps.above hxy (h.functions hxy) calls h.turns h.nested

end ParametricParts

end LedgerScript
