import LedgerScript.Proofs.Machine.Outside
import LedgerScript.Proofs.Machine.StateFunctions

/-!
# Contracts that run and wait

While a contract runs, those that led to it wait, and the host keeps a context for
each of them.  A watcher who knows which contract was found last knows whose code
runs and waits (`CallStack.tracing`), and sees that the contexts are those of this
code, that no contract is among them twice, and that each but the first is the one
in which the contract below it has called (`CallStack.Sound`).  Main statement:
`CallStack.ofRun_sound`.

A call between contracts takes a level, so as many contracts wait at most as there
are levels, and depths never come to the end of their word.
-/

namespace LedgerScript

variable {σ : Type}

/-- `resolve` finds contracts under their own identities. -/
def Surroundings.Named (s : Surroundings σ) : Prop :=
  ∀ {id : ContractId} {before after : σ} {contract : Contract},
    s.resolve id before = .ok contract after → contract.id = id

namespace CallStack

/-- What a watcher sees at an event. -/
structure Moment where
  event : Event
  host : Host
  /-- The contracts whose code runs or waits, the running one first. -/
  codes : List Contract

/-- The contract that was found last, the contracts whose code runs or waits, and all
moments, the last one first. -/
structure Notes where
  found : Option Contract := none
  codes : List Contract
  moments : List Moment := []

/-- The first of the contracts whose code waits. -/
def lowest (count : Nat) (codes : List Contract) : List Contract :=
  codes.drop (codes.length - count)

/-- At `called`, the contract that was found last is the one that is called.  One that has
`returned` is done, and so are those that failed, of which there is no event. -/
def Notes.codesAt (n : Notes) (host : Host) : Event → List Contract
  | .called => n.found.toList ++ lowest host.callers.length n.codes
  | .returned _ _ => lowest host.contexts.length n.codes.tail
  | _ => lowest host.contexts.length n.codes

def note (event : Event) (host : Host) (n : Notes) : Notes where
  found := n.found
  codes := n.codesAt host event
  moments := ⟨event, host, n.codesAt host event⟩ :: n.moments

/-- Notes which contract `resolve` finds, and every `Event`. -/
def tracing (s : Surroundings σ) : Surroundings (σ × Notes) where
  entries := s.entries
  limits := s.limits
  resolve id := fun o =>
    match s.resolve id o.1 with
    | .ok contract outside => .ok contract (outside, { o.2 with found := some contract })
    | .error e outside => .error e (outside, o.2)
  watch event vars host := fun o => (s.watch event vars host o.1, note event host o.2)

/-- The moments that `tracing` notes of a run, the last one first. -/
def ofRun (s : Surroundings σ) (contract : Contract) (context : Context) (view : View)
    (budget : Budget) (interval : UInt64) (outside : σ) : List Moment :=
  (execute (tracing s) contract context view budget interval
    (outside, { codes := [contract] })).2.2.moments

theorem resolve_tracing (s : Surroundings σ) (id : ContractId) (before after : σ × Notes) :
    (∀ contract, (tracing s).resolve id before = .ok contract after →
        s.resolve id before.1 = .ok contract after.1 ∧
          after.2 = { before.2 with found := some contract }) ∧
      ∀ e, (tracing s).resolve id before = .error e after → after.2 = before.2 := by
  unfold tracing
  dsimp only
  cases s.resolve id before.1 with
  | ok contract outside =>
    refine ⟨fun other h => ?_, fun e h => ?_⟩
    · cases h
      exact ⟨rfl, rfl⟩
    · cases h
  | error e outside =>
    refine ⟨fun other h => ?_, fun e h => ?_⟩ <;> cases h
    rfl

/-- `execute` gives the same outcome over `tracing`: the watcher is not felt. -/
theorem execute_tracing (s : Surroundings σ) (contract : Contract) (context : Context)
    (view : View) (budget : Budget) (interval : UInt64) (outside : σ) (notes : Notes) :
    (execute (tracing s) contract context view budget interval (outside, notes)).1 =
      (execute s contract context view budget interval outside).1 := by
  have alike : s.Alike (tracing s) fun a b => b.1 = a := by
    refine ⟨rfl, rfl, fun {a b} same id => ?_, fun same event vars host => ?_⟩
    · subst same
      unfold tracing
      dsimp only
      cases s.resolve id b.1 with
      | ok contract outside => exact .ok rfl
      | error e outside => exact .error rfl
    · exact congrArg _ same
  exact (execute_alike alike contract context view budget interval rfl).1

/-! ## Stacks -/

/-- Contracts that run and wait, and their contexts, as they should be in a call that
began in the context `top`; the running contract comes first. -/
structure Sound (top : Context) (codes : List Contract) (contexts : List Context) : Prop where
  /-- No contract is entered twice. -/
  distinct : (contexts.map Context.contract).Nodup
  /-- The contexts are those of the code that runs and waits. -/
  codes : codes.map Contract.id = contexts.map Context.contract
  space : ∀ c ∈ contexts, c.space = c.contract.space
  first : contexts.getLast? = some top
  caller : ∀ {callee below : Context}, [callee, below] <:+: contexts →
    callee.caller = below.contract.hex
  depth : ∀ {callee below : Context}, [callee, below] <:+: contexts →
    callee.depth.toNat = below.depth.toNat + 1
  height : ∀ c ∈ contexts, c.height = top.height
  query : ∀ c ∈ contexts, c.kind = .query ↔ top.kind = .query

variable {top : Context} {codes : List Contract}

theorem Sound.length {contexts : List Context} (h : Sound top codes contexts) :
    codes.length = contexts.length := by
  have same := congrArg List.length h.codes
  rwa [List.length_map, List.length_map] at same

theorem sound_single {contract : Contract} (own : contract.id = top.contract)
    (space : top.space = top.contract.space) : Sound top [contract] [top] where
  distinct := List.pairwise_singleton _ _
  codes := congrArg (fun id => [id]) own
  space c mem := by
    rw [List.mem_singleton.1 mem]
    exact space
  first := rfl
  caller h := absurd h.length_le (by simp)
  depth h := absurd h.length_le (by simp)
  height c mem := by rw [List.mem_singleton.1 mem]
  query c mem := by rw [List.mem_singleton.1 mem]

theorem depth_child {c : Context} (low : c.depth.toNat < 65535) (callee : ContractId)
    (method : String) (args : Value) :
    (c.child callee method args).depth.toNat = c.depth.toNat + 1 := by
  have other : c.depth ≠ 65535 := fun same => by
    rw [same] at low
    exact absurd low (by decide)
  unfold Context.child
  dsimp only
  rw [if_neg other, UInt16.toNat_add]
  exact Nat.mod_eq_of_lt (by simp; omega)

/-- `[a, b]` on a stack are the two contexts on top, or lie below. -/
theorem infix_pair {a b c d : Context} {rest : List Context} (h : [a, b] <:+: c :: d :: rest) :
    a = c ∧ b = d ∨ [a, b] <:+: d :: rest := by
  rcases List.infix_cons_iff.1 h with first | below
  · rw [List.cons_prefix_cons, List.cons_prefix_cons] at first
    exact .inl ⟨first.1, first.2.1⟩
  · exact .inr below

/-- `Sound` once `forInvoke` has put a contract that is called by the running one on top. -/
theorem Sound.call {c : Context} {rest : List Context} (h : Sound top codes (c :: rest))
    (low : c.depth.toNat < 65535) {callee : ContractId} {method : String} {args : Value}
    (fresh : ∀ d ∈ c :: rest, d.contract ≠ callee) {contract : Contract}
    (found : contract.id = callee) :
    Sound top (contract :: codes) (c.child callee method args :: c :: rest) where
  distinct := by
    rw [List.map_cons, List.nodup_cons]
    refine ⟨fun mem => ?_, h.distinct⟩
    obtain ⟨d, waiting, same⟩ := List.mem_map.1 mem
    exact fresh d waiting same
  codes := by
    rw [List.map_cons, List.map_cons, h.codes, found]
    rfl
  space d mem := by
    rcases List.mem_cons.1 mem with rfl | below
    · rfl
    · exact h.space d below
  first := h.first
  caller pair := by
    rcases infix_pair pair with ⟨rfl, rfl⟩ | below
    · rfl
    · exact h.caller below
  depth pair := by
    rcases infix_pair pair with ⟨rfl, rfl⟩ | below
    · exact depth_child low callee method args
    · exact h.depth below
  height d mem := by
    rcases List.mem_cons.1 mem with rfl | below
    · exact h.height c List.mem_cons_self
    · exact h.height d below
  query d mem := by
    rcases List.mem_cons.1 mem with rfl | below
    · rw [← h.query c List.mem_cons_self]
      change (if c.kind.readOnly then CallKind.query else .invoke) = .query ↔ _
      cases c.kind <;> decide
    · exact h.query d below

/-! ## What runs keep -/

theorem lowest_of_suffix {noted : List Contract} (h : codes <:+ noted) :
    lowest codes.length noted = codes := by
  obtain ⟨done, rfl⟩ := h
  simp [lowest]

/-- A machine with `codes` on its stack and room for as many calls as levels are
left. -/
structure Placed (top : Context) (levels : Nat) (codes : List Contract)
    (m : Machine (σ × Notes)) : Prop where
  sound : Sound top codes m.host.contexts
  room : m.host.callers.length + levels ≤ maxNesting
  depth : ∀ c, m.host.current? = some c → c.depth.toNat = m.host.callers.length
  noted : codes <:+ m.outside.2.codes

/-- All moments so far were `Sound`. -/
def Proper (top : Context) (m : Machine (σ × Notes)) : Prop :=
  ∀ moment ∈ m.outside.2.moments, Sound top moment.codes moment.host.contexts

/-- What every part of a run gives back as it was: the contexts, and the `codes` that the
watcher has noted for them. -/
structure Beside (codes : List Contract) (a b : Machine (σ × Notes)) : Prop where
  contexts : b.host.contexts = a.host.contexts
  noted : codes <:+ b.outside.2.codes

def Steady (top : Context) (levels : Nat) (a b : Machine (σ × Notes)) : Prop :=
  ∀ codes, Placed top levels codes a → Proper top a → Beside codes a b ∧ Proper top b

variable {levels : Nat} {s : Surroundings σ} {a b c m next : Machine (σ × Notes)}

theorem Placed.of_beside (h : Placed top levels codes a) (beside : Beside codes a b) :
    Placed top levels codes b where
  sound := by rw [beside.contexts]; exact h.sound
  room := by rw [Host.callers, beside.contexts]; exact h.room
  depth c running := by
    rw [Host.current?, beside.contexts] at running
    rw [Host.callers, beside.contexts]
    exact h.depth c running
  noted := beside.noted

theorem Steady.trans (hab : Steady top levels a b) (hbc : Steady top levels b c) :
    Steady top levels a c := by
  intro codes placed proper
  obtain ⟨first, mid⟩ := hab codes placed proper
  obtain ⟨second, last⟩ := hbc codes (placed.of_beside first) mid
  exact ⟨⟨second.contexts.trans first.contexts, second.noted⟩, last⟩

theorem Steady.rise (h : Steady top levels a b) : Steady top (levels + 1) a b :=
  fun codes placed =>
    h codes ⟨placed.sound, Nat.le_of_succ_le placed.room, placed.depth, placed.noted⟩

theorem Steady.same (contexts : b.host.contexts = a.host.contexts)
    (codes : b.outside.2.codes = a.outside.2.codes)
    (moments : b.outside.2.moments = a.outside.2.moments) : Steady top levels a b := by
  intro noted placed proper
  refine ⟨⟨contexts, codes ▸ placed.noted⟩, ?_⟩
  unfold Proper
  rw [moments]
  exact proper

theorem Steady.framed {opened : Meter} {scope : Scope}
    (h : Steady top levels (m.inFrame opened scope) next) : Steady top levels m next.outFrame := by
  have entered : Steady top levels m (m.inFrame opened scope) := .same rfl rfl rfl
  have left : Steady top levels next next.outFrame := .same rfl rfl rfl
  exact (entered.trans h).trans left

/-- `Steady` at an event that is neither `called` nor `returned`. -/
theorem Steady.notice {event : Event}
    (plain : ∀ (n : Notes) (host : Host),
      n.codesAt host event = lowest host.contexts.length n.codes) :
    Steady top levels m (Exec.notice (tracing s) event m) := by
  intro codes placed proper
  have running : m.outside.2.codesAt m.host event = codes := by
    rw [plain, ← placed.sound.length, lowest_of_suffix placed.noted]
  refine ⟨⟨rfl, ⟨[], running.symm⟩⟩, List.forall_mem_cons.2 ⟨?_, proper⟩⟩
  change Sound top (m.outside.2.codesAt m.host event) m.host.contexts
  rw [running]
  exact placed.sound

theorem Steady.resolve {id : ContractId} {outside : σ × Notes}
    (h : Ends ((tracing s).resolve id) m.outside outside) :
    Steady top levels m (m.withOutside outside) := by
  obtain ⟨found, lost⟩ := resolve_tracing s id m.outside outside
  rcases h with ⟨contract, h⟩ | ⟨e, h⟩
  · obtain ⟨-, notes⟩ := found contract h
    exact .same rfl (congrArg Notes.codes notes :) (congrArg Notes.moments notes :)
  · exact .same rfl (congrArg Notes.codes (lost e h)) (congrArg Notes.moments (lost e h))

/-! ### Calls -/

variable {child : Context}

theorem found_of_hasFound (named : s.Named) (h : m.HasFound (tracing s) child.contract) :
    ∃ contract, m.outside.2.found = some contract ∧ contract.id = child.contract := by
  obtain ⟨contract, before, found⟩ := h
  obtain ⟨resolved, notes⟩ := (resolve_tracing s child.contract before m.outside).1 contract found
  exact ⟨contract, by rw [notes], named resolved⟩

/-- The contract that `resolve` has found goes on top with its context, so the machine
that is `entering` is `Placed` one level higher. -/
theorem Placed.entering (h : Placed top (levels + 1) codes m) (may : m.MayCall child)
    {contract : Contract} (found : m.outside.2.found = some contract)
    (own : contract.id = child.contract) :
    Placed top levels (contract :: codes) (m.entering (tracing s) child) ∧
      (m.entering (tracing s) child).outside.2.codes = contract :: codes := by
  have noted : (m.entering (tracing s) child).outside.2.codes = contract :: codes := by
    change m.outside.2.found.toList ++ lowest m.host.contexts.length m.outside.2.codes = _
    rw [found, ← h.sound.length, lowest_of_suffix h.noted]
    rfl
  have higher := may.length_contexts
  obtain ⟨⟨running, callee, method, args, runs, rfl⟩, fresh⟩ := may
  have room := h.room
  have depth := h.depth running runs
  -- the depth is the number of contracts that wait, and each of them took a level
  have low : running.depth.toNat < 65535 := by
    have few : maxNesting < 65535 := by decide
    omega
  obtain ⟨callers, stacked⟩ := List.head?_eq_some_iff.1 runs
  have sound := h.sound
  rw [stacked] at sound fresh
  refine ⟨⟨?_, ?_, fun c here => ?_, noted ▸ List.suffix_rfl⟩, noted⟩
  · change Sound top _ (running.child callee method args :: m.host.contexts)
    rw [stacked]
    exact sound.call low fresh own
  · change m.host.contexts.length + levels ≤ maxNesting
    omega
  · cases here
    change _ = m.host.contexts.length
    rw [depth_child low, depth, higher]

theorem Proper.entering (h : Proper top m) (placed : Placed top (levels + 1) codes m)
    (may : m.MayCall child) {contract : Contract} (found : m.outside.2.found = some contract)
    (own : contract.id = child.contract) : Proper top (m.entering (tracing s) child) := by
  obtain ⟨inside, noted⟩ := placed.entering (s := s) may found own
  refine List.forall_mem_cons.2 ⟨?_, h⟩
  change Sound top (m.entering (tracing s) child).outside.2.codes _
  rw [noted]
  exact inside.sound

/-- A `called` contract gives its caller back what it was given, and its own code is still
noted. -/
theorem Steady.called (named : s.Named) (may : m.MayCall child)
    (there : m.HasFound (tracing s) child.contract) (back : m.Restores next)
    (h : Steady top levels (m.entering (tracing s) child) next)
    (placed : Placed top (levels + 1) codes m) (proper : Proper top m) :
    Beside codes m (m.leaving next) ∧ Proper top (m.leaving next) ∧
      codes <:+ next.outside.2.codes.tail := by
  obtain ⟨contract, found, own⟩ := found_of_hasFound named there
  obtain ⟨beside, later⟩ := h _ (placed.entering may found own).1
    (proper.entering placed may found own)
  refine ⟨⟨back, (List.suffix_cons _ _).trans beside.noted⟩, later, ?_⟩
  -- above the code of the called contract may be noted that of contracts that failed in it
  obtain ⟨failed, same⟩ := beside.noted
  rw [← same]
  cases failed with
  | nil => exact List.suffix_rfl
  | cons first rest => exact (List.suffix_cons contract codes).trans (List.suffix_append rest _)

theorem Steady.leaving (named : s.Named) (may : m.MayCall child)
    (there : m.HasFound (tracing s) child.contract) (back : m.Restores next)
    (h : Steady top levels (m.entering (tracing s) child) next) :
    Steady top (levels + 1) m (m.leaving next) := fun _ placed proper =>
  have ⟨beside, later, _⟩ := h.called named may there back placed proper
  ⟨beside, later⟩

theorem Steady.resume (named : s.Named) (may : m.MayCall child)
    (there : m.HasFound (tracing s) child.contract) (back : m.Restores next) (truthy : Bool)
    (h : Steady top levels (m.entering (tracing s) child) next) :
    Steady top (levels + 1) m (m.resume (tracing s) child truthy next) := by
  have noticed : Steady top (levels + 1) m
      (Exec.notice (tracing s) (.returned child.contract truthy) (m.leaving next)) := by
    intro codes placed proper
    obtain ⟨-, later, noted⟩ := h.called named may there back placed proper
    have running : next.outside.2.codesAt next.host.returning
        (.returned child.contract truthy) = codes := by
      change lowest next.host.returning.contexts.length next.outside.2.codes.tail = codes
      rw [back, ← placed.sound.length, lowest_of_suffix noted]
    refine ⟨⟨back, ⟨[], running.symm⟩⟩, List.forall_mem_cons.2 ⟨?_, later⟩⟩
    change Sound top (next.outside.2.codesAt next.host.returning
      (.returned child.contract truthy)) next.host.returning.contexts
    rw [running, back]
    exact placed.sound
  cases truthy with
  | true => exact noticed
  | false => exact noticed.trans (.same rfl rfl rfl)

/-! ## All runs -/

theorem own_steady (s : Surroundings σ) (top : Context) (levels : Nat) :
    AllowsOwn (tracing s) (Steady top levels) (Steady top levels) where
  refl _ := .same rfl rfl rfl
  trans := .trans
  fail _ := .same rfl rfl rfl
  after := .trans
  before := .trans
  vars _ _ := .same rfl rfl rfl
  meter _ _ _ := .same rfl rfl rfl
  framed _ done := .framed done
  framedError _ failed := .framed failed
  look _ _ _ := .same rfl rfl rfl
  write _ _ _ _ _ := .same rfl rfl rfl
  log _ _ := .same rfl rfl rfl
  entered _ := .notice fun _ _ => rfl
  left _ := .notice fun _ _ => rfl
  resolve _ _ _ := .resolve

theorem levels_steady (named : s.Named) (top : Context) :
    AllowsLevels .lax (tracing s) (fun levels _ => Steady top levels)
      fun levels _ => Steady top levels where
  parts levels :=
    { value := fun _ => trivial
      admits := Regime.admits_lax
      own := fun _ => own_steady s top levels
      builtin := fun _ _ _ _ => .notice fun _ _ => rfl
      hosted := fun _ _ _ _ => .notice fun _ _ => rfl }
  rise := .rise
  riseError := .rise
  call _ _ _ :=
    ⟨fun _ _ _ truthy may there back h => h.resume named may there back truthy,
      fun _ _ _ may there back h => h.leaving named may there back⟩

/-- Every moment of a run that begins with one context, and no contract waiting, is
`Sound`: the contexts are those of the code that runs and waits, and each is as its caller
made it. -/
theorem ofRun_sound (named : s.Named) {contract : Contract} (own : contract.id = top.contract)
    (space : top.space = top.contract.space) (outermost : top.depth = 0) (view : View)
    (budget : Budget) (interval : UInt64) (outside : σ) :
    ∀ moment ∈ ofRun s contract top view budget interval outside,
      Sound top moment.codes moment.host.contexts := by
  let start := Machine.start (Host.new (Meter.new budget interval) view top)
    (outside, ({ codes := [contract] } : Notes))
  have placed : Placed top maxNesting [contract] start := by
    refine ⟨sound_single own space, Nat.le_of_eq (Nat.zero_add _), fun c running => ?_,
      List.suffix_rfl⟩
    cases running
    change top.depth.toNat = 0
    rw [outermost]
    rfl
  have proper : Proper top start := List.forall_mem_nil _
  have steady := ((levels_steady named top).runEntry contract top).ends (Exec.ends_finish _ start)
  exact (steady _ placed proper).2

end CallStack

end LedgerScript
