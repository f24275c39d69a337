import LedgerScript.Proofs.Machine.ContractDepth

/-!
# What is opened is closed

Evaluations nest, functions open frames, and contracts that are called do both on
the meter of the call.  Whatever ends a run, it leaves as many levels open as it
found, and all the while the meter counts one level for each evaluation that has
begun and is not over.  Frames are counted in a word: `Meter.enterFrame` leaves a
full counter as it is, and `Meter.exitFrame` takes one away all the same
(`Meter.Counts`), so a run leaves as many frames open as it found unless the counter
fills up on the way.  Main statement: `run_balanced`.

A call begins with a meter that has counted nothing, and levels are too few to fill
the counter then (`roomy_of_new`).
-/

namespace LedgerScript

open Script (Program)

variable {σ α : Type}

/-! ## Frames -/

namespace Meter

/-- The largest number that a counter shows while `frames` frames are opened over
those that it shows at first; without any it is not looked at. -/
def peak (depth frames : Nat) : Nat := if frames = 0 then 0 else min (depth + frames) 65535

theorem peak_max (depth frames more : Nat) :
    max (peak depth frames) (peak (min depth (65535 - frames)) more) =
      peak depth (max frames more) := by
  unfold peak
  split <;> split <;> split <;> omega

theorem peak_succ (depth frames : Nat) :
    max (min (depth + 1) 65535) (peak (min (depth + 1) 65535) frames) =
      peak depth (frames + 1) := by
  unfold peak
  split <;> split <;> omega

/-- What is left of the meter `a` when at most `frames` frames were open at once and
all are closed.  A full counter counts no further, but it counts back. -/
structure Counts (frames : Nat) (a b : Meter) : Prop where
  budget : b.budget = a.budget
  depth : b.depth.toNat = min a.depth.toNat (65535 - frames)
  maxDepth : b.maxDepth.toNat = max a.maxDepth.toNat (peak a.depth.toNat frames)
  fits : peak a.depth.toNat frames ≤ a.budget.maxDepth.toNat

variable {a b c opened : Meter} {frames more : Nat}

/-- `Counts` for no frame at all. -/
theorem counts_of_eq (budget : b.budget = a.budget) (depth : b.depth = a.depth)
    (maxDepth : b.maxDepth = a.maxDepth) : Counts 0 a b where
  budget := budget
  depth := by
    have bound := a.depth.toNat_lt
    rw [depth]
    omega
  maxDepth := by
    rw [maxDepth]
    exact (Nat.max_zero _).symm
  fits := Nat.zero_le _

theorem Counts.trans (hab : Counts frames a b) (hbc : Counts more b c) :
    Counts (max frames more) a c where
  budget := hbc.budget.trans hab.budget
  depth := by
    rw [hbc.depth, hab.depth]
    omega
  maxDepth := by
    rw [hbc.maxDepth, hab.maxDepth, hab.depth, Nat.max_assoc, peak_max]
  fits := by
    rw [← peak_max, ← hab.depth]
    exact Nat.max_le.2 ⟨hab.fits, hab.budget ▸ hbc.fits⟩

theorem toNat_deeper (m : Meter) : m.deeper.toNat = min (m.depth.toNat + 1) 65535 := by
  have bound := m.depth.toNat_lt
  unfold deeper
  split
  · next full =>
    rw [full]
    rfl
  · next low =>
    have other : m.depth.toNat ≠ 65535 := fun same => low (UInt16.toNat_inj.1 same)
    rw [toNat_succ low]
    omega

theorem toNat_max (m n : UInt16) : (max m n).toNat = max m.toNat n.toNat := by
  change (if m ≤ n then n else m).toNat = _
  split <;> rename_i le <;> rw [UInt16.le_iff_toNat_le] at le <;> omega

theorem toNat_depth_exitFrame (m : Meter) : m.exitFrame.depth.toNat = m.depth.toNat - 1 := by
  unfold exitFrame
  dsimp only
  split
  · next none =>
    rw [none]
    rfl
  · next some =>
    have positive : (1 : UInt16) ≤ m.depth := by
      have other : m.depth.toNat ≠ 0 := fun zero => some (UInt16.toNat_inj.1 zero)
      rw [UInt16.le_iff_toNat_le]
      exact Nat.one_le_iff_ne_zero.2 other
    exact UInt16.toNat_sub_of_le _ _ positive

/-- A frame around what opens `frames` frames is one more. -/
theorem Counts.framed (opening : enterFrame a = .ok () opened) (h : Counts frames opened b) :
    Counts (frames + 1) a b.exitFrame := by
  obtain ⟨fitting, rfl⟩ := enterFrame_eq_ok opening
  have deeper := toNat_deeper a
  rw [UInt16.le_iff_toNat_le, deeper] at fitting
  obtain ⟨budget, depth, maxDepth, fits⟩ := h
  dsimp only at budget depth maxDepth fits
  rw [deeper] at depth maxDepth fits
  refine ⟨budget, ?_, ?_, ?_⟩
  · have bound := a.depth.toNat_lt
    rw [toNat_depth_exitFrame]
    omega
  · refine maxDepth.trans ?_
    rw [toNat_max, deeper, Nat.max_assoc, peak_succ]
  · rw [← peak_succ]
    exact Nat.max_le.2 ⟨fitting, fits⟩

theorem Counts.depth_le (h : Counts frames a b) : b.depth.toNat ≤ a.depth.toNat := by
  have depth := h.depth
  omega

theorem Counts.depth_eq_zero (h : Counts frames a b) (none : a.depth = 0) : b.depth = 0 := by
  have shallow := h.depth_le
  rw [none] at shallow
  exact UInt16.toNat_inj.1 (Nat.le_zero.1 shallow)

end Meter

namespace Balance

open ContractDepth (visitor)

/-- What a watcher sees at an event: the levels and the frames that the meter counts,
how many evaluations have begun, and how many of them have ended. -/
structure Moment where
  nesting : Nat
  frames : UInt16
  begun : Nat
  ended : Nat
deriving DecidableEq

/-- The evaluations so far, and all moments, the last one first. -/
structure Notes where
  begun : Nat := 0
  ended : Nat := 0
  moments : List Moment := []

def note (event : Event) (host : Host) (n : Notes) : Notes :=
  let begun := if event = .entered then n.begun + 1 else n.begun
  let ended := if event = .left then n.ended + 1 else n.ended
  ⟨begun, ended, ⟨host.meter.nesting, host.meter.depth, begun, ended⟩ :: n.moments⟩

def noting (s : Surroundings σ) : Surroundings (σ × Notes) :=
  s.noting fun event _ host n => note event host n

def ofRun (s : Surroundings σ) (p : Program) (name : String) (args : List Value)
    (m : Machine σ) : List Moment :=
  (((Evaluator.whole (noting s)).run p name args).finish (m.noted {})).2.outside.2.moments

/-! ## What runs keep -/

/-- The levels are the `base` ones and those of the evaluations that have `begun` since
and have not `ended`, and `maxNesting` is kept. -/
structure Moment.Counted (base : Nat) (moment : Moment) : Prop where
  begun : moment.ended ≤ moment.begun
  nesting : moment.nesting = base + (moment.begun - moment.ended)
  ceiling : moment.nesting ≤ maxNesting

/-- `Counted` does not look at how many frames are open. -/
theorem Moment.Counted.of_levels {base : Nat} {moment other : Moment} (h : moment.Counted base)
    (nesting : other.nesting = moment.nesting) (begun : other.begun = moment.begun)
    (ended : other.ended = moment.ended) : other.Counted base where
  begun := by rw [begun, ended]; exact h.begun
  nesting := by rw [nesting, begun, ended]; exact h.nesting
  ceiling := by rw [nesting]; exact h.ceiling

/-- The counter of frames is not full, so that a frame that is opened is counted. -/
def Moment.Roomy (moment : Moment) : Prop := moment.frames < 65535

def now (m : Machine (σ × Notes)) : Moment :=
  ⟨m.host.meter.nesting, m.host.meter.depth, m.outside.2.begun, m.outside.2.ended⟩

/-- The levels were counted at all moments so far and are now, and at no moment more
than `top` frames were open. -/
structure Proper (base top : Nat) (m : Machine (σ × Notes)) : Prop where
  present : (now m).Counted base
  past : ∀ moment ∈ m.outside.2.moments, moment.Counted base ∧ moment.frames.toNat ≤ top

/-- What every part of a run gives back that opens at most `n` frames at once. -/
structure Beside (n : Nat) (a b : Machine (σ × Notes)) : Prop where
  frames : ∃ frames ≤ n, a.host.meter.Counts frames b.host.meter
  nesting : b.host.meter.nesting = a.host.meter.nesting

def Balances (base top n : Nat) (a b : Machine (σ × Notes)) : Prop :=
  a.host.meter.depth.toNat + n ≤ top → Proper base top a → Beside n a b ∧ Proper base top b

variable {base top n : Nat} {a b c m next : Machine (σ × Notes)} {s : Surroundings σ}

theorem Beside.depth_le (h : Beside n a b) :
    b.host.meter.depth.toNat ≤ a.host.meter.depth.toNat := by
  obtain ⟨frames, -, counts⟩ := h.frames
  exact counts.depth_le

theorem Beside.trans (hab : Beside n a b) (hbc : Beside n b c) : Beside n a c := by
  obtain ⟨frames, few, counts⟩ := hab.frames
  obtain ⟨frames', few', counts'⟩ := hbc.frames
  exact ⟨⟨_, Nat.max_le.2 ⟨few, few'⟩, counts.trans counts'⟩, hbc.nesting.trans hab.nesting⟩

theorem Balances.trans (hab : Balances base top n a b) (hbc : Balances base top n b c) :
    Balances base top n a c := by
  intro below proper
  obtain ⟨first, mid⟩ := hab below proper
  have shallower := first.depth_le
  obtain ⟨second, last⟩ := hbc (by omega) mid
  exact ⟨first.trans second, last⟩

/-- `Balances` for a change of something else than the frames and levels. -/
theorem Balances.same (counts : a.host.meter.Counts 0 b.host.meter)
    (nesting : b.host.meter.nesting = a.host.meter.nesting) (notes : b.outside.2 = a.outside.2) :
    Balances base top n a b := by
  intro _ proper
  have present : (now b).Counted base :=
    proper.present.of_levels nesting (congrArg Notes.begun notes) (congrArg Notes.ended notes)
  exact ⟨⟨⟨0, Nat.zero_le n, counts⟩, nesting⟩, present, notes ▸ proper.past⟩

/-- `Balances` for a change that neither the meter nor the notes see. -/
theorem Balances.elsewhere (meter : b.host.meter = a.host.meter)
    (notes : b.outside.2 = a.outside.2) : Balances base top n a b := by
  refine .same ?_ (by rw [meter]) notes
  rw [meter]
  exact Meter.counts_of_eq rfl rfl rfl

/-- What the watcher notes is `Proper` if the machine is so now. -/
theorem Proper.notice {event : Event} (few : m.host.meter.depth.toNat ≤ top)
    (present : (now (Exec.notice (noting s) event m)).Counted base)
    (past : ∀ moment ∈ m.outside.2.moments, moment.Counted base ∧ moment.frames.toNat ≤ top) :
    Proper base top (Exec.notice (noting s) event m) :=
  ⟨present, List.forall_mem_cons.2 ⟨⟨present, few⟩, past⟩⟩

theorem now_notice {event : Event} (begins : event ≠ .entered) (ends : event ≠ .left) :
    now (Exec.notice (noting s) event m) = now m := by
  have begun : (note event m.host m.outside.2).begun = m.outside.2.begun := if_neg begins
  have ended : (note event m.host m.outside.2).ended = m.outside.2.ended := if_neg ends
  unfold now
  exact congr (congrArg (Moment.mk m.host.meter.nesting m.host.meter.depth) begun) ended

/-- `Balances` for an event that is neither `entered` nor `left`. -/
theorem Balances.notice (s : Surroundings σ) {event : Event} (begins : event ≠ .entered)
    (ends : event ≠ .left) : Balances base top n m (Exec.notice (noting s) event m) := by
  intro below proper
  have present : (now (Exec.notice (noting s) event m)).Counted base := by
    rw [now_notice begins ends]
    exact proper.present
  exact ⟨⟨⟨0, Nat.zero_le n, Meter.counts_of_eq rfl rfl rfl⟩, rfl⟩,
    .notice (by omega) present proper.past⟩

/-! ### Levels -/

/-- `Counted` when one more evaluation has `begun`. -/
theorem Moment.Counted.opened {moment : Moment} (h : moment.Counted base)
    (free : moment.nesting < maxNesting) :
    Moment.Counted base ⟨moment.nesting + 1, moment.frames, moment.begun + 1, moment.ended⟩ := by
  obtain ⟨begun, nesting, -⟩ := h
  refine ⟨Nat.le_succ_of_le begun, ?_, free⟩
  dsimp only
  omega

/-- `Counted` when the evaluation that began last has `ended`; it was none of the first
ones. -/
theorem Moment.Counted.closed {moment : Moment} (h : moment.Counted base)
    (opened : base < moment.nesting) :
    Moment.Counted base ⟨moment.nesting - 1, moment.frames, moment.begun, moment.ended + 1⟩ := by
  obtain ⟨begun, nesting, ceiling⟩ := h
  refine ⟨?_, ?_, Nat.le_trans (Nat.sub_le ..) ceiling⟩ <;> dsimp only <;> omega

theorem Proper.inLevel (h : Proper base top m) (few : m.host.meter.depth.toNat ≤ top)
    (free : m.host.meter.nesting < maxNesting) : Proper base top (m.inLevel (noting s)) :=
  .notice few (h.present.opened free) h.past

theorem Proper.outLevel (h : Proper base top m) (few : m.host.meter.depth.toNat ≤ top)
    (opened : base < m.host.meter.nesting) : Proper base top (m.outLevel (noting s)) :=
  .notice few (h.present.closed opened) h.past

theorem Proper.base_le (h : Proper base top m) : base ≤ m.host.meter.nesting := by
  have nesting : m.host.meter.nesting = base + _ := h.present.nesting
  omega

theorem Balances.levelled (free : m.host.meter.nesting < maxNesting)
    (h : Balances base top n (m.inLevel (noting s)) next) :
    Balances base top n m (next.outLevel (noting s)) := by
  intro below proper
  obtain ⟨beside, later⟩ := h below (proper.inLevel (by omega) free)
  have opened : next.host.meter.nesting = m.host.meter.nesting + 1 := beside.nesting
  have shallower : next.host.meter.depth.toNat ≤ m.host.meter.depth.toNat := beside.depth_le
  have first := proper.base_le
  obtain ⟨frames, few, counts⟩ := beside.frames
  refine ⟨⟨⟨frames, few, counts.budget, counts.depth, counts.maxDepth, counts.fits⟩, ?_⟩,
    later.outLevel (by omega) (by omega)⟩
  change next.host.meter.nesting - 1 = m.host.meter.nesting
  omega

/-! ### Frames -/

theorem Balances.framed {opened : Meter} {scope : Scope}
    (opening : Meter.enterFrame m.host.meter = .ok () opened)
    (h : Balances base top n (m.inFrame opened scope) next) :
    Balances base top (n + 1) m next.outFrame := by
  intro below proper
  have same := Meter.nesting_enterFrame opening
  have deeper : opened.depth.toNat ≤ m.host.meter.depth.toNat + 1 := by
    obtain ⟨-, rfl⟩ := Meter.enterFrame_eq_ok opening
    exact Nat.le_trans (Nat.le_of_eq (Meter.toNat_deeper _)) (Nat.min_le_left ..)
  have begun : Proper base top (m.inFrame opened scope) :=
    ⟨proper.present.of_levels same rfl rfl, proper.past⟩
  obtain ⟨⟨⟨frames, few, counts⟩, nesting⟩, later⟩ :=
    h (Nat.le_trans (Nat.add_le_add_right deeper n) (by omega)) begun
  exact ⟨⟨⟨frames + 1, Nat.succ_le_succ few, counts.framed opening⟩, nesting.trans same⟩,
    later.present.of_levels rfl rfl rfl, later.past⟩

theorem Balances.rise (h : Balances base top n a b) : Balances base top (n + 1) a b := by
  intro below proper
  obtain ⟨⟨⟨frames, few, counts⟩, nesting⟩, later⟩ := h (by omega) proper
  exact ⟨⟨⟨frames, Nat.le_succ_of_le few, counts⟩, nesting⟩, later⟩

/-! ### Calls -/

variable {child : Context}

theorem Balances.entering (s : Surroundings σ) (m : Machine (σ × Notes)) (child : Context) :
    Balances base top n m (m.entering (noting s) child) :=
  .trans (b := { m with vars := {}, host := m.host.entering child }) (.elsewhere rfl rfl)
    (.notice s Event.noConfusion Event.noConfusion)

theorem Balances.leaving (h : Balances base top n (m.entering (noting s) child) next) :
    Balances base top n m (m.leaving next) :=
  (Balances.entering s m child).trans (h.trans (.elsewhere rfl rfl))

theorem Balances.resume (truthy : Bool)
    (h : Balances base top n (m.entering (noting s) child) next) :
    Balances base top n m (m.resume (noting s) child truthy next) := by
  have back : Balances base top n m
      (Exec.notice (noting s) (.returned child.contract truthy) (m.leaving next)) :=
    h.leaving.trans (.notice s Event.noConfusion Event.noConfusion)
  cases truthy with
  | true => exact back
  | false => exact back.trans (.elsewhere rfl rfl)

/-! ## All runs -/

theorem plain_balances (s : Surroundings σ) (base top n : Nat) :
    AllowsPlain (noting s) (Balances base top n) (Balances base top n) where
  refl _ := .elsewhere rfl rfl
  trans := .trans
  fail _ := .elsewhere rfl rfl
  after := .trans
  before := .trans
  vars _ _ := .elsewhere rfl rfl
  spent _ _ spent :=
    .same (Meter.counts_of_eq spent.budget spent.depth spent.deepest) spent.nesting rfl
  look _ _ _ := .elsewhere rfl rfl
  write _ _ _ _ _ := .elsewhere rfl rfl
  log _ _ := .elsewhere rfl rfl
  resolve _ _ _ found := .elsewhere rfl (Surroundings.notes_of_resolve found)

theorem phrases_balance (s : Surroundings σ) (base top n : Nat) :
    AllowsPhrases .lax (noting s) (fun _ => Balances base top n) fun _ => Balances base top n where
  value _ := trivial
  admits := Regime.admits_lax
  plain _ := plain_balances s base top n
  builtin _ _ _ _ := .notice s Event.noConfusion Event.noConfusion
  hosted _ _ _ _ := .notice s Event.noConfusion Event.noConfusion

/-- Parts of a run that make a change which `Balances` with `n` frames at most. -/
abbrev Related (base top n : Nat) : HoldingRelation (σ × Notes) (σ × Notes) :=
  fun _ _ _ _ x _ => x.Leads (Balances base top n) (Balances base top n)

theorem Related.rise {x : Exec (σ × Notes) α}
    (h : x.Leads (Balances base top n) (Balances base top n)) :
    x.Leads (Balances base top (n + 1)) (Balances base top (n + 1)) :=
  h.mono .rise .rise

section Levels

variable {x y : Evaluator (σ × Notes)} (h : Evaluator.RelatedOn .lax (Related base top n) x y)

include h

theorem related_above : Evaluator.RelatedOn .lax (Related base top (n + 1)) x y where
  eval admitted e allowed := Related.rise (h.eval admitted e allowed)
  exec admitted stmt allowed := Related.rise (h.exec admitted stmt allowed)

/-- A function takes one frame above what its body takes, so its call is `Related` for
`n + 1`. -/
theorem functions_related (s : Surroundings σ) :
    Evaluator.FunctionsRelatedOn .lax (Related base top (n + 1)) x y := by
  intro p admitted name f found args _
  have body := (phrases_balance s base top n).parametric.execAll h admitted f.body
    (admitted.function found)
  exact (phrases_balance s base top (n + 1)).parametric.callFunction (y := y) f args
    ((plain_balances s base top (n + 1)).leads_inFrame _ .framed .framed body)

theorem run_related (s : Surroundings σ) (p : Program) (name : String) (args : List Value) :
    Related base top (n + 1) p .expression (x.run p name args) (y.run p name args) :=
  (phrases_balance s base top (n + 1)).parametric.run (related_above h) (Regime.admits_lax p)
    (functions_related h s) name args (Regime.each_lax args)

end Levels

/-- The induction is on the levels: only functions take frames, and their bodies
run on the level below. -/
theorem related_ofLevels (s : Surroundings σ) (base top n : Nat) :
    Evaluator.RelatedOn .lax (Related base top n) (Evaluator.ofLevels (noting s) n)
      (Evaluator.ofLevels (noting s) n) := by
  induction n with
  | zero =>
    have plain := plain_balances s base top 0
    exact ⟨fun _ _ _ => plain.leads_throw _, fun _ _ _ => plain.leads_throw _⟩
  | succ n below =>
    have plain := plain_balances s base top (n + 1)
    have phrases := (phrases_balance s base top (n + 1)).parametric
    have related := related_above below
    have kept := Evaluator.keepsContexts_ofLevels (noting s) n
    have calls : Evaluator.CallsRelatedOn .lax (noting s) (noting s) (Related base top (n + 1))
        (Evaluator.ofLevels (noting s) n) (Evaluator.ofLevels (noting s) n) :=
      fun _ target method args _ => plain.leads_callContract
        (fun _ => ⟨fun _ _ _ truthy _ _ _ => .resume truthy, fun _ _ _ _ _ _ => .leaving⟩)
        kept (run_related below s) target method args
    exact phrases.above related (functions_related below s) calls (fun _ => plain.leads_throw _)
      (plain.leads_nested .levelled .levelled)

section Run

variable (s : Surroundings σ) (p : Program) (name : String) (args : List Value) (m : Machine σ)

/-- What is `Counted` along a run that is watched, and how it ends: `run_balanced` with a
bound on the frames that are open. -/
theorem beside_run (levels : m.host.meter.nesting ≤ maxNesting) :
    let after := (((Evaluator.whole s).run p name args).finish m).2.host.meter
    (∃ frames ≤ maxNesting + 1, m.host.meter.Counts frames after) ∧
      after.nesting = m.host.meter.nesting ∧
      ∀ moment ∈ ofRun s p name args m, moment.Counted m.host.meter.nesting ∧
        moment.frames.toNat ≤ m.host.meter.depth.toNat + (maxNesting + 1) := by
  let start := m.noted ({} : Notes)
  let top := m.host.meter.depth.toNat + (maxNesting + 1)
  have proper : Proper m.host.meter.nesting top start :=
    ⟨⟨Nat.le_refl 0, rfl, levels⟩, List.forall_mem_nil _⟩
  have related := related_ofLevels s m.host.meter.nesting top maxNesting
  have ran := (run_related related s p name args).ends (Exec.ends_finish _ start)
  obtain ⟨beside, later⟩ := ran (Nat.le_refl _) proper
  have unwatched := Exec.Noted.finish
    ((parametric_noted s fun event _ host n => note event host n).run p name args) m {}
  dsimp only
  rw [unwatched]
  exact ⟨beside.frames, beside.nesting, later.past⟩

end Run

/-- Fails, and with it whoever invokes it. -/
def broken : Contract := .specimen 2 [.fail (.str "out")]

def around : Surroundings Unit := ContractDepth.surroundings [broken]

/-- A contract is about to call it from inside a function. -/
def visit : Machine Unit :=
  .start (.new (.new { maxDepth := 65535 } 1) {} (.forInvoke visitor.id "" "m" .null 0)) ()

/-- A function with nothing in it. -/
def idle : Script.Function := ⟨"f", [], []⟩

/-- The `visit` with a full counter of frames. -/
def full : Machine Unit :=
  visit.withMeter { visit.host.meter with depth := 65535, maxDepth := 65535 }

section Run

variable {m : Machine σ} {budget : Budget} {interval : UInt64}
  (fresh : m.host.meter = .new budget interval) (s : Surroundings σ) (p : Program)
  (name : String) (args : List Value)

include fresh

/-- In a run that begins with a `Meter.new` every moment is `Roomy`, in whatever contract:
the counter of frames is never full. -/
theorem roomy_of_new : ∀ moment ∈ ofRun s p name args m, moment.Roomy := by
  intro moment mem
  have none : m.host.meter.nesting = 0 := by rw [fresh]; rfl
  have shallow : m.host.meter.depth.toNat = 0 := by rw [fresh]; rfl
  have few := (beside_run s p name args m (none ▸ Nat.zero_le _)).2.2 moment mem
  have most : maxNesting + 1 < (65535 : UInt16).toNat := by decide
  exact UInt16.lt_iff_toNat_lt.2 (by omega)

/-- So a run that begins with a `Meter.new` closes every frame that it opens. -/
theorem depth_of_new :
    (((Evaluator.whole s).run p name args).finish m).2.host.meter.depth = 0 := by
  have none : m.host.meter.nesting = 0 := by rw [fresh]; rfl
  have shallow : m.host.meter.depth = 0 := by rw [fresh]; rfl
  obtain ⟨frames, -, counts⟩ := (beside_run s p name args m (none ▸ Nat.zero_le _)).1
  exact counts.depth_eq_zero shallow

end Run

end Balance

end LedgerScript
