import LedgerScript.Proofs.Machine.ContextStack

/-!
# Relations that evaluation keeps

A relation that is closed under the parts of a run and under calls between
contracts relates the two runs of every expression and statement on each level
(`ParametricOn.ofLevels`) and of every entry point (`ParametricOn.runEntry`).
A property of single runs is a relation that looks at one side only.  What
depends on how many levels are left is a family of relations, in which a call
between contracts takes one level (`ParametricLevels`).  `Parametric` is the
case of a relation that needs no regime.
-/

namespace LedgerScript

open Script (Program)

/-- `R` is closed under calls between contracts, too. -/
structure ParametricOn {σ τ : Type} (g : Regime) (s : Surroundings σ) (t : Surroundings τ)
    (R : HoldingRelation σ τ) : Prop extends ParametricParts g s t R where
  callContract : ∀ {p : Program} {x : Evaluator σ} {y : Evaluator τ}, g.Hosts p →
    x.KeepsContexts → y.KeepsContexts →
    (∀ {q : Program}, g.Admits q → ∀ name args, g.Each args →
      R q .expression (x.run q name args) (y.run q name args)) →
    ∀ (target method : String) (args : Value), g.value args →
      R p .expression (x.callContract s target method args) (y.callContract t target method args)

/-- Every relation of a family is closed under the parts, and a call between
contracts is related one level above what the called contracts do. -/
structure ParametricLevels {σ τ : Type} (g : Regime) (s : Surroundings σ) (t : Surroundings τ)
    (R : Nat → HoldingRelation σ τ) : Prop where
  parts : ∀ n, ParametricParts g s t (R n)
  rise : ∀ {n : Nat} {p : Program} {k : Phrase} {α : Type} [Holding α] {x : Exec σ α}
    {y : Exec τ α}, R n p k x y → R (n + 1) p k x y
  callContract : ∀ {n : Nat} {p : Program} {x : Evaluator σ} {y : Evaluator τ}, g.Hosts p →
    x.KeepsContexts → y.KeepsContexts →
    (∀ {q : Program}, g.Admits q → ∀ name args, g.Each args →
      R n q .expression (x.run q name args) (y.run q name args)) →
    ∀ (target method : String) (args : Value), g.value args →
      R (n + 1) p .expression (x.callContract s target method args)
        (y.callContract t target method args)

/-! ### Levels -/

section Levels

variable {σ τ : Type} {g : Regime} {s : Surroundings σ} {t : Surroundings τ}

namespace ParametricLevels

variable {R : Nat → HoldingRelation σ τ}

/-- The induction is on the levels: the parts of the upper level are made of the
lower level, which is related also by the upper relation. -/
theorem ofLevels (h : ParametricLevels g s t R) (n : Nat) :
    Evaluator.RelatedOn g (R n) (Evaluator.ofLevels s n) (Evaluator.ofLevels t n) := by
  induction n with
  | zero =>
    have ground := @(h.parts 0).ground
    exact ⟨fun _ _ _ => ground _, fun _ _ _ => (h.parts 0).widen (ground _)⟩
  | succ n below =>
    have risen : Evaluator.RelatedOn g (R (n + 1)) (Evaluator.ofLevels s n)
        (Evaluator.ofLevels t n) :=
      ⟨fun hp e ha => h.rise (below.eval hp e ha), fun hp stmt ha => h.rise (below.exec hp stmt ha)⟩
    exact (h.parts (n + 1)).above risen fun host =>
      h.callContract host (Evaluator.keepsContexts_ofLevels s n)
        (Evaluator.keepsContexts_ofLevels t n) ((h.parts n).run below)

theorem runEntry (h : ParametricLevels g s t R) (contract : Contract)
    (hp : g.Admits contract.program) (context : Context) (hargs : g.Each context.entryArgs) :
    R maxNesting contract.program .expression (runEntry s contract context)
      (runEntry t contract context) := by
  unfold LedgerScript.runEntry
  split
  · exact (h.parts maxNesting).run (h.ofLevels maxNesting) hp _ _ hargs
  · exact (h.parts maxNesting).missing _ _

end ParametricLevels

namespace ParametricOn

variable {R : HoldingRelation σ τ}

/-- A relation that calls between contracts keep is the same on all levels. -/
theorem levels (h : ParametricOn g s t R) : ParametricLevels g s t fun _ => R where
  parts _ := h.toParametricParts
  rise related := related
  callContract := h.callContract

theorem above (h : ParametricOn g s t R) {x : Evaluator σ} {y : Evaluator τ}
    (hx : x.KeepsContexts) (hy : y.KeepsContexts) (hxy : Evaluator.RelatedOn g R x y) :
    Evaluator.RelatedOn g R (x.above s) (y.above t) :=
  h.toParametricParts.above hxy fun host => h.callContract host hx hy (h.run hxy)

theorem ofLevels (h : ParametricOn g s t R) (n : Nat) :
    Evaluator.RelatedOn g R (Evaluator.ofLevels s n) (Evaluator.ofLevels t n) :=
  h.levels.ofLevels n

theorem runEntry (h : ParametricOn g s t R) (contract : Contract)
    (hp : g.Admits contract.program) (context : Context) (hargs : g.Each context.entryArgs) :
    R contract.program .expression (runEntry s contract context)
      (runEntry t contract context) :=
  h.levels.runEntry contract hp context hargs

end ParametricOn

end Levels

/-! ## Parametric relations -/

/-- `R` is closed under every part that a run is put together from, whatever
the values and the acts in it. -/
structure Parametric {σ τ : Type} (s : Surroundings σ) (t : Surroundings τ)
    (R : Phrase → RunRelation σ τ) : Prop where
  pure : ∀ (k : Phrase) {α : Type} (a : α), R k (pure a) (pure a)
  bind : ∀ {k : Phrase} {α β : Type} {x : Exec σ α} {y : Exec τ α} {f : α → Exec σ β}
    {g : α → Exec τ β}, R k x y → (∀ a, R k (f a) (g a)) → R k (x >>= f) (y >>= g)
  widen : ∀ {α : Type} {x : Exec σ α} {y : Exec τ α}, R .expression x y → R .statement x y
  fault : ∀ {α : Type} (f : ScriptFault),
    R .expression (Exec.fault f : Exec σ α) (Exec.fault f)
  missing : ∀ entry : EntryPoint,
    R .expression (throw (.missingEntryPoint entry) : Exec σ Value)
      (throw (.missingEntryPoint entry))
  ground : ∀ {α : Type}, R .expression (throw Meter.nestingExhausted : Exec σ α)
    (throw Meter.nestingExhausted)
  turns : ∀ {α : Type}, R .expression (throw Meter.turnsExhausted : Exec σ α)
    (throw Meter.turnsExhausted)
  steps : ∀ n : Nat, R .expression (Exec.metered (Meter.chargeSteps n))
    (Exec.metered (Meter.chargeSteps n))
  memory : ∀ n : Nat, R .expression (Exec.metered (Meter.chargeMemory n))
    (Exec.metered (Meter.chargeMemory n))
  lookup : ∀ name : String, R .expression (Exec.lookup name) (Exec.lookup name)
  declareGlobal : ∀ (name : String) (slot : Slot),
    R .expression (Exec.vars (·.declareGlobal name slot)) (Exec.vars (·.declareGlobal name slot))
  declare : ∀ (name : String) (slot : Slot),
    R .statement (Exec.vars (·.declare name slot)) (Exec.vars (·.declare name slot))
  store : ∀ (root : String) (keys : List PathKey) (v : Value),
    R .statement (Evaluator.store root keys v) (Evaluator.store root keys v)
  inScope : ∀ {α : Type} {x : Exec σ α} {y : Exec τ α}, R .statement x y →
    R .statement (Exec.inScope x) (Exec.inScope y)
  inFrame : ∀ {α : Type} (scope : Scope) {x : Exec σ α} {y : Exec τ α}, R .statement x y →
    R .expression (Exec.inFrame scope x) (Exec.inFrame scope y)
  nested : ∀ {k : Phrase} {α : Type} {x : Exec σ α} {y : Exec τ α}, R k x y →
    R k (Evaluator.nested s x) (Evaluator.nested t y)
  builtin : ∀ f : Builtin, R .expression (modify (Exec.notice s (.builtin f)))
    (modify (Exec.notice t (.builtin f)))
  hosted : ∀ f : HostFunction, R .expression (modify (Exec.notice s (.hosted f)))
    (modify (Exec.notice t (.hosted f)))
  getState : ∀ key : String, R .expression (Exec.getState s key) (Exec.getState t key)
  putState : ∀ (key : String) (v : Value),
    R .expression (Exec.putState s key v) (Exec.putState t key v)
  delState : ∀ key : String, R .expression (Exec.delState s key) (Exec.delState t key)
  told : ∀ f : String → ContractId → UInt64 → Value,
    R .expression (Exec.told f) (Exec.told f)
  logLine : ∀ line : String, R .expression (Exec.logLine line) (Exec.logLine line)
  callContract : ∀ {x : Evaluator σ} {y : Evaluator τ}, x.KeepsContexts → y.KeepsContexts →
    (∀ p name args, R .expression (x.run p name args) (y.run p name args)) →
    ∀ (target method : String) (args : Value),
      R .expression (x.callContract s target method args) (y.callContract t target method args)

namespace Parametric

variable {σ τ : Type} {s : Surroundings σ} {t : Surroundings τ} {R : Phrase → RunRelation σ τ}

theorem chargeNew (h : Parametric s t R) (v : Value) :
    R .expression (Exec.chargeNew v) (Exec.chargeNew v) := by
  unfold Exec.chargeNew
  split
  · exact h.memory _
  · exact h.memory _
  · exact h.memory _
  · exact h.pure _ ()

/-- A parametric relation is closed in the regime in which everything goes. -/
theorem lax (h : Parametric s t R) : ParametricOn .lax s t fun _ k _ _ x y => R k x y where
  null := trivial
  bool _ := trivial
  int _ := trivial
  part _ _ := trivial
  making := Regime.making_of_forall fun _ => trivial
  pure _ k _ _ a _ := h.pure k a
  bind hx hf := h.bind hx fun a => hf a (Regime.each_lax a)
  widen := h.widen
  fault _ _ _ f := h.fault f
  missing _ := h.missing
  ground _ _ _ := h.ground
  turns _ _ _ := h.turns
  steps _ := h.steps
  made _ v _ := h.bind (h.chargeNew v) fun _ => h.pure _ v
  lookup _ := h.lookup
  declareGlobal _ name slot _ := h.declareGlobal name slot
  declare _ name slot _ := h.declare name slot
  store root keys v _ _ := h.store root keys v
  inScope := h.inScope
  inFrame _ _ _ _ _ hx := h.inFrame _ hx
  nested := h.nested
  builtin f _ _ := h.builtin f
  hosted f _ _ := h.hosted f
  memory n _ := h.memory n
  getState key _ := h.getState key
  putState key v _ _ := h.putState key v
  delState key _ := h.delState key
  told f _ _ := h.told f
  logLine line _ := h.logLine line
  callContract _ hx hy hxy target method args _ :=
    h.callContract hx hy (fun p name args =>
      hxy (Regime.admits_lax p) name args (Regime.each_lax args)) target method args

theorem run (h : Parametric s t R) (p : Program) (name : String) (args : List Value) :
    R .expression ((Evaluator.whole s).run p name args) ((Evaluator.whole t).run p name args) :=
  h.lax.run (h.lax.ofLevels maxNesting) (Regime.admits_lax p) name args (Regime.each_lax args)

theorem runEntry (h : Parametric s t R) (contract : Contract) (context : Context) :
    R .expression (runEntry s contract context) (runEntry t contract context) :=
  h.lax.runEntry contract (Regime.admits_lax _) context (Regime.each_lax _)

end Parametric

end LedgerScript
