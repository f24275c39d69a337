import LedgerScript.Proofs.Machine.Changes
import LedgerScript.Proofs.Machine.Noting

/-!
# How deep contracts call one another

The meter counts function frames over all contracts of a call.  A contract that
calls another one from inside a function has a frame open meanwhile; one that
calls from its top level has none.  So a context lies no deeper than the ceiling
on frames and the calls that were made without a frame (`execute_depth_le`), and
without such calls no deeper than the ceiling; with them it may lie deeper
(`ContractDepth.deeper_than_ceiling`).
-/

namespace LedgerScript

variable {σ : Type}

namespace ContractDepth

/-- How a running or waiting contract was reached. -/
structure Level where
  /-- The frames that were open when it began. -/
  mark : UInt16
  /-- How many of the calls that led to it were made by a contract that had no
  frame open. -/
  loose : Nat

/-- The depth of the running context at some moment, and how many of the calls
that led to it were made without a frame. -/
structure Moment where
  depth : UInt16
  loose : Nat
deriving DecidableEq

/-- The levels by the number of contracts that wait, and all moments, the last `Moment`
first. -/
structure Notes where
  levels : Nat → Level := fun _ => ⟨0, 0⟩
  moments : List Moment := []

/-- The level of a contract that begins to run. -/
def Level.below (caller : Level) (frames : UInt16) : Level where
  mark := frames
  loose := if frames = caller.mark then caller.loose + 1 else caller.loose

/-- The depth of the running context, for a host on which a contract runs. -/
def depthOf (host : Host) : UInt16 := (host.current?.map Context.depth).getD 0

def descend (host : Host) (levels : Nat → Level) : Nat → Level := fun i =>
  if i = host.callers.length then (levels (i - 1)).below host.meter.depth else levels i

def note (event : Event) (host : Host) (n : Notes) : Notes :=
  let levels := if event = .called then descend host n.levels else n.levels
  ⟨levels, ⟨depthOf host, (levels host.callers.length).loose⟩ :: n.moments⟩

def noting (s : Surroundings σ) : Surroundings (σ × Notes) :=
  s.noting fun event _ host n => note event host n

def ofRun (s : Surroundings σ) (contract : Contract) (context : Context) (view : View)
    (budget : Budget) (interval : UInt64) (outside : σ) : List Moment :=
  (execute (noting s) contract context view budget interval (outside, {})).2.2.moments

/-! ## What runs keep -/

/-- A moment within the bound, for a run that began at depth `base`. -/
def Moment.Bounded (base : Nat) (limit : UInt16) (moment : Moment) : Prop :=
  moment.depth.toNat ≤ base + limit.toNat + moment.loose

def level (m : Machine (σ × Notes)) : Level := m.outside.2.levels m.host.callers.length

/-- The running context lies no deeper than the frames that were open when it began
(`mark`) and the calls without a frame before it (`loose`). -/
structure Placed (base : Nat) (limit : UInt16) (m : Machine (σ × Notes)) : Prop where
  ceiling : m.host.meter.budget.maxDepth = limit
  frames : m.host.meter.depth ≤ limit
  mark : (level m).mark ≤ m.host.meter.depth
  depth : (depthOf m.host).toNat ≤ base + (level m).mark.toNat + (level m).loose

def Bounded (base : Nat) (limit : UInt16) (m : Machine (σ × Notes)) : Prop :=
  ∀ moment ∈ m.outside.2.moments, moment.Bounded base limit

/-- What every part of a run gives back as it was. -/
structure Beside (a b : Machine (σ × Notes)) : Prop where
  budget : b.host.meter.budget = a.host.meter.budget
  frames : b.host.meter.depth = a.host.meter.depth
  contexts : b.host.contexts = a.host.contexts
  levels : ∀ i ≤ a.host.callers.length, b.outside.2.levels i = a.outside.2.levels i

def Steady (base : Nat) (limit : UInt16) (a b : Machine (σ × Notes)) : Prop :=
  Placed base limit a → Bounded base limit a → Beside a b ∧ Bounded base limit b

variable {base : Nat} {limit : UInt16} {a b c m next : Machine (σ × Notes)}

theorem Beside.callers (h : Beside a b) : b.host.callers = a.host.callers :=
  congrArg List.tail h.contexts

theorem Beside.trans (hab : Beside a b) (hbc : Beside b c) : Beside a c where
  budget := hbc.budget.trans hab.budget
  frames := hbc.frames.trans hab.frames
  contexts := hbc.contexts.trans hab.contexts
  levels i le := by
    have same : i ≤ b.host.callers.length := by
      rw [hab.callers]
      exact le
    exact (hbc.levels i same).trans (hab.levels i le)

theorem Beside.level (h : Beside a b) : level b = level a := by
  unfold ContractDepth.level
  rw [h.callers]
  exact h.levels _ (Nat.le_refl _)

theorem Placed.of_beside (h : Placed base limit a) (beside : Beside a b) :
    Placed base limit b where
  ceiling := by rw [beside.budget, h.ceiling]
  frames := by rw [beside.frames]; exact h.frames
  mark := by rw [beside.level, beside.frames]; exact h.mark
  depth := by
    unfold depthOf Host.current?
    rw [beside.level, beside.contexts]
    exact h.depth

theorem Placed.bounded (h : Placed base limit m) :
    Moment.Bounded base limit ⟨depthOf m.host, (level m).loose⟩ := by
  have depth := h.depth
  have mark := UInt16.le_iff_toNat_le.1 h.mark
  have frames := UInt16.le_iff_toNat_le.1 h.frames
  change (depthOf m.host).toNat ≤ base + limit.toNat + (level m).loose
  omega

theorem Steady.trans (hab : Steady base limit a b) (hbc : Steady base limit b c) :
    Steady base limit a c := by
  intro placed bounded
  obtain ⟨first, mid⟩ := hab placed bounded
  obtain ⟨second, last⟩ := hbc (placed.of_beside first) mid
  exact ⟨first.trans second, last⟩

/-- `Steady` for a change of something else. -/
theorem Steady.same (budget : b.host.meter.budget = a.host.meter.budget)
    (frames : b.host.meter.depth = a.host.meter.depth)
    (contexts : b.host.contexts = a.host.contexts) (notes : b.outside.2 = a.outside.2) :
    Steady base limit a b := by
  intro _ bounded
  refine ⟨⟨budget, frames, contexts, fun i _ => by rw [notes]⟩, ?_⟩
  unfold Bounded
  rw [notes]
  exact bounded

/-- `Steady` for an event other than `called`. -/
theorem Steady.notice (s : Surroundings σ) {event : Event} (plain : event ≠ .called) :
    Steady base limit m (Exec.notice (noting s) event m) := by
  intro placed bounded
  have levels : (note event m.host m.outside.2).levels = m.outside.2.levels := if_neg plain
  refine ⟨⟨rfl, rfl, rfl, fun i _ => congrFun levels i⟩, ?_⟩
  refine List.forall_mem_cons.2 ⟨?_, bounded⟩
  rw [if_neg plain]
  exact placed.bounded

/-! ### Frames -/

theorem Steady.framed (low : limit < 65535) {opened : Meter} {scope : Scope}
    (opening : Meter.enterFrame m.host.meter = .ok () opened)
    (h : Steady base limit (m.inFrame opened scope) next) : Steady base limit m next.outFrame := by
  intro placed bounded
  have below : m.host.meter.depth ≠ 65535 := by
    intro same
    have frames := placed.frames
    rw [same] at frames
    exact UInt16.not_le.2 low frames
  obtain ⟨deeper, fits⟩ := Meter.depth_enterFrame opening below
  have follows := Meter.follows_enterFrame (.inl ⟨_, opening⟩)
  have mark : (level m).mark ≤ opened.depth := by
    have mark := UInt16.le_iff_toNat_le.1 placed.mark
    rw [deeper, UInt16.le_iff_toNat_le, Meter.toNat_succ below]
    omega
  have ceiling : opened.budget.maxDepth = limit := by rw [follows.budget, placed.ceiling]
  have frames : opened.depth ≤ limit := by
    rw [← placed.ceiling]
    exact fits
  have inside : Placed base limit (m.inFrame opened scope) :=
    ⟨ceiling, frames, mark, placed.depth⟩
  obtain ⟨beside, later⟩ := h inside bounded
  have closed := Meter.depth_exitFrame (beside.frames.trans deeper) below
  exact ⟨⟨beside.budget.trans follows.budget, closed, beside.contexts, beside.levels⟩, later⟩

/-! ### Calls -/

theorem depth_child_le (c : Context) (callee : ContractId) (method : String) (args : Value) :
    (c.child callee method args).depth.toNat ≤ c.depth.toNat + 1 := by
  unfold Context.child
  dsimp only
  split
  · omega
  · rename_i low
    exact Nat.le_of_eq (Meter.toNat_succ low)

variable {s : Surroundings σ} {child : Context}

theorem level_entering : level (m.entering (noting s) child) =
    (level m).below m.host.meter.depth := by
  have waiting : m.host.contexts.length - 1 = m.host.callers.length := List.length_tail.symm
  exact (if_pos rfl).trans
    (congrArg (fun i => (m.outside.2.levels i).below m.host.meter.depth) waiting)

theorem levels_entering (may : m.MayCall child) {i : Nat} (le : i ≤ m.host.callers.length) :
    (m.entering (noting s) child).outside.2.levels i = m.outside.2.levels i := by
  refine if_neg fun same => ?_
  have top : i = m.host.contexts.length := same
  rw [may.length_contexts] at top
  omega

/-- A called contract is `Placed`: it has a frame below it that was not there when its
caller began, or it was called without one. -/
theorem Placed.entering (h : Placed base limit m) (may : m.MayCall child) :
    Placed base limit (m.entering (noting s) child) where
  ceiling := h.ceiling
  frames := h.frames
  mark := by
    rw [level_entering]
    exact UInt16.le_refl _
  depth := by
    obtain ⟨⟨running, callee, method, args, runs, rfl⟩, -⟩ := may
    have deeper := depth_child_le running callee method args
    have depth := h.depth
    have mark := UInt16.le_iff_toNat_le.1 h.mark
    rw [level_entering]
    unfold depthOf at depth
    unfold Level.below
    rw [runs] at depth
    change running.depth.toNat ≤ _ at depth
    dsimp only
    change (running.child callee method args).depth.toNat ≤ _
    split
    · rename_i none
      rw [none]
      omega
    · rename_i some
      have other : (level m).mark.toNat ≠ m.host.meter.depth.toNat := fun same =>
        some (UInt16.toNat_inj.1 same).symm
      omega

theorem Bounded.entering (h : Bounded base limit m) (placed : Placed base limit m)
    (may : m.MayCall child) : Bounded base limit (m.entering (noting s) child) := by
  have called : Placed base limit (m.entering (noting s) child) := placed.entering may
  exact List.forall_mem_cons.2 ⟨called.bounded, h⟩

/-- `Steady` for a called contract that fails is so for its caller. -/
theorem Steady.leaving (may : m.MayCall child) (back : m.Restores next)
    (h : Steady base limit (m.entering (noting s) child) next) :
    Steady base limit m (m.leaving next) := by
  intro placed bounded
  obtain ⟨beside, later⟩ := h (placed.entering may) (bounded.entering placed may)
  refine ⟨⟨beside.budget, beside.frames, back, fun i le => ?_⟩, later⟩
  have waiting : i ≤ (m.entering (noting s) child).host.callers.length := by
    change i ≤ m.host.contexts.length
    rw [may.length_contexts]
    exact Nat.le_succ_of_le le
  exact (beside.levels i waiting).trans (levels_entering may le)

theorem Steady.resume (may : m.MayCall child) (back : m.Restores next) (truthy : Bool)
    (h : Steady base limit (m.entering (noting s) child) next) :
    Steady base limit m (m.resume (noting s) child truthy next) := by
  have noticed : Steady base limit m
      (Exec.notice (noting s) (.returned child.contract truthy) (m.leaving next)) :=
    (h.leaving may back).trans (.notice s Event.noConfusion)
  cases truthy with
  | true => exact noticed
  | false => exact noticed.trans (.same rfl rfl rfl rfl)

/-! ## All runs -/

theorem own_steady (s : Surroundings σ) (base : Nat) (low : limit < 65535) :
    AllowsOwn (noting s) (Steady base limit) (Steady base limit) where
  refl _ := .same rfl rfl rfl rfl
  trans := .trans
  fail _ := .same rfl rfl rfl rfl
  after := .trans
  before := .trans
  vars _ _ := .same rfl rfl rfl rfl
  meter _ _ charged := .same charged.budget charged.depth rfl rfl
  framed := .framed low
  framedError := .framed low
  look _ _ _ := .same rfl rfl rfl rfl
  write _ _ _ _ _ := .same rfl rfl rfl rfl
  log _ _ := .same rfl rfl rfl rfl
  entered _ := .notice s Event.noConfusion
  left _ := .notice s Event.noConfusion
  resolve _ _ _ found := .same rfl rfl rfl (Surroundings.notes_of_resolve found)

theorem allows_steady (s : Surroundings σ) (base : Nat) (low : limit < 65535) :
    Allows .lax (noting s) (fun _ => Steady base limit) fun _ => Steady base limit where
  value _ := trivial
  admits := Regime.admits_lax
  own _ := own_steady s base low
  builtin _ _ _ _ := .notice s Event.noConfusion
  hosted _ _ _ _ := .notice s Event.noConfusion
  returned _ _ _ truthy may back h := h.resume may back truthy
  broken _ _ _ may back h := h.leaving may back

/-- **How deep contracts lie.**  At every moment of a run, the running context lies no
deeper below the first one than `maxDepth` and the number of `loose` calls, which led to
it and were made by a contract without an open frame. -/
theorem execute_depth_le (s : Surroundings σ) (contract : Contract) (context : Context)
    (view : View) (budget : Budget) (interval : UInt64) (outside : σ) :
    ∀ moment ∈ ofRun s contract context view budget interval outside,
      moment.depth.toNat ≤ context.depth.toNat + budget.maxDepth.toNat + moment.loose := by
  by_cases low : budget.maxDepth < 65535
  · let start := Machine.start (Host.new (Meter.new budget interval) view context)
      (outside, ({} : Notes))
    have placed : Placed context.depth.toNat budget.maxDepth start :=
      ⟨rfl, UInt16.zero_le, UInt16.zero_le, Nat.le_add_right ..⟩
    have bounded : Bounded context.depth.toNat budget.maxDepth start := List.forall_mem_nil _
    have steady := ((allows_steady s context.depth.toNat low).runEntry contract context).ends
      (Exec.ends_finish _ start)
    exact (steady placed bounded).2
  · -- a ceiling of all ones is no ceiling on a word of that size
    intro moment _
    have high : (65535 : UInt16).toNat ≤ budget.maxDepth.toNat :=
      UInt16.le_iff_toNat_le.1 (UInt16.not_lt.1 low)
    have bound := moment.depth.toNat_lt
    have all : (65535 : UInt16).toNat = 65535 := rfl
    omega

def bottom : Contract := .specimen 2 [.result (some (.bool true))]

/-- Calls another contract from inside a function. -/
def visitor : Contract :=
  .specimen 3 [.result (some (.call "CallContract" [.str bottom.id.hex, .str "m", .null]))]

def surroundings (others : List Contract) : Surroundings Unit where
  entries := ∅
  limits := {}
  resolve id :=
    match others.find? (·.id = id) with
    | some contract => pure contract
    | none => throw (.contractNotFound id)

/-- `execute_depth_le` where every call is made from inside a function, and the bound is
met. -/
theorem visit_depth_le :
    let deepest : Moment := ⟨1, 0⟩
    deepest ∈ ofRun (surroundings [bottom]) visitor (.forInvoke visitor.id "" "m" .null 0) {}
        { maxDepth := 1 } 1 () ∧
      deepest.depth.toNat ≤ 0 + 1 + deepest.loose :=
  have reached := by decide +kernel
  ⟨reached, execute_depth_le (surroundings [bottom]) visitor
    (.forInvoke visitor.id "" "m" .null 0) {} { maxDepth := 1 } 1 () _ reached⟩

/-- Calls another contract from its top level. -/
def stage (byte : UInt8) (callee : ContractId) : Contract :=
  let plain := Contract.specimen byte [.result (some (.ident "x"))]
  let call := Script.Expr.call "CallContract" [.str callee.hex, .str "m", .null]
  { plain with compiled := ⟨{ plain.program with globals := [⟨"x", some call, true⟩] }⟩ }

def middle : Contract := stage 1 bottom.id

def top : Contract := stage 0 middle.id

/-- Under a `maxDepth` of one frame a context lies at depth two. -/
theorem deeper_than_ceiling :
    ∃ moment ∈ ofRun (surroundings [middle, bottom]) top
      (.forInvoke top.id "" "m" .null 0) {} { maxDepth := 1 } 1 (),
      1 < moment.depth := by
  decide +kernel

end ContractDepth

end LedgerScript
