import LedgerScript.Proofs.Json.Pretty
import LedgerScript.Wire.Config

/-!
# Configurations that come back

A configuration is read from the document that it is written as (`Config.reads_document`).
What is read from a text or made of overrides is accepted if it can be used and not
otherwise, and what passes the checks is what can be used (`Config.documents_sound`).
-/

namespace LedgerScript

open Json (Reads)

/-! ## What can be used -/

/-- A budget that allows something of each resource, and no call depth that is too much. -/
structure Budget.Usable (b : Budget) : Prop where
  steps : 0 < b.maxSteps.toNat
  memory : 0 < b.maxMemory.toNat
  depth : 0 < b.maxDepth.toNat
  shallow : b.maxDepth ≤ Config.maxCallDepth

namespace Config

/-- A configuration with limits above zero and with budgets that can be used. -/
structure Usable (c : Config) : Prop where
  scriptSize : 0 < c.maxScriptSize.toNat
  keyLength : 0 < c.maxKeyLength.toNat
  valueSize : 0 < c.maxValueSize.toNat
  stateWrites : 0 < c.maxStateWrites.toNat
  capacity : 0 < c.cacheCapacity.toNat
  interval : 0 < c.checkInterval.toNat
  deploy : c.deployBudget.Usable
  invoke : c.invokeBudget.Usable
  query : c.queryBudget.Usable

theorem positive_eq_ok_iff {field : String} {n : Nat} : positive field n = .ok () ↔ 0 < n := by
  unfold positive
  split
  · next zero => exact ⟨fun h => (by cases h), fun above => absurd zero (Nat.ne_of_gt above)⟩
  · next nonzero => exact ⟨fun _ => Nat.pos_of_ne_zero nonzero, fun _ => rfl⟩

theorem checkBudget_eq_ok_iff {field : String} {b : Budget} :
    checkBudget field b = .ok () ↔ b.Usable := by
  have deep : (if maxCallDepth < b.maxDepth then
      throw (.invalid field (.depthAbove b.maxDepth maxCallDepth)) else pure () :
        Except ConfigError Unit) = .ok () ↔ b.maxDepth ≤ maxCallDepth := by
    split
    · next above => exact ⟨fun h => (by cases h), fun h => absurd above (UInt16.not_lt.2 h)⟩
    · next within => exact ⟨fun _ => UInt16.not_lt.1 within, fun _ => rfl⟩
  unfold checkBudget
  rw [except_then_eq_ok_iff, except_then_eq_ok_iff, except_then_eq_ok_iff, positive_eq_ok_iff,
    positive_eq_ok_iff, positive_eq_ok_iff, deep]
  exact ⟨fun ⟨steps, memory, depth, shallow⟩ => ⟨steps, memory, depth, shallow⟩,
    fun ⟨steps, memory, depth, shallow⟩ => ⟨steps, memory, depth, shallow⟩⟩

theorem check_eq_ok_iff {c : Config} : c.check = .ok () ↔ c.Usable := by
  unfold check
  simp only [except_then_eq_ok_iff, positive_eq_ok_iff, checkBudget_eq_ok_iff]
  constructor
  · rintro ⟨size, key, value, writes, capacity, interval, deploy, invoke, query⟩
    exact ⟨size, key, value, writes, capacity, interval, deploy, invoke, query⟩
  · rintro ⟨size, key, value, writes, capacity, interval, deploy, invoke, query⟩
    exact ⟨size, key, value, writes, capacity, interval, deploy, invoke, query⟩

theorem checked_eq_ok_iff {c d : Config} : c.checked = .ok d ↔ c = d ∧ d.Usable := by
  unfold checked
  rw [← check_eq_ok_iff]
  constructor
  · intro h
    obtain ⟨_, passed, returned⟩ := except_bind_eq_ok h
    cases returned
    exact ⟨rfl, passed⟩
  · rintro ⟨rfl, passed⟩
    rw [passed]
    rfl

end Config

/-! ## Reading what is written -/

theorem Budget.reads_document (b : Budget) (room : Nat) :
    Reads (record.read (room + 1)) b.document b := by
  refine Json.reads_record ⟨some b.maxSteps, some b.maxMemory, some b.maxDepth⟩ ?_ rfl
  refine .cons rfl rfl (.field (Json.reads_word "u64" b.maxSteps)) ?_
  refine .cons rfl rfl (.field (Json.reads_word "u64" b.maxMemory)) ?_
  exact .cons rfl rfl (.field (Json.reads_short b.maxDepth)) (.nil _)

namespace Config

/-- `record` reads a configuration from its own `document`; there is room for its budgets. -/
theorem reads_document (c : Config) (room : Nat) :
    Reads (record.read (room + 2)) c.document c := by
  have names : Reads (Json.readStrings (room + 1)) (.list (c.forbiddenGlobals.map .str))
      c.forbiddenGlobals := Json.reads_list fun s _ => Json.reads_string s
  refine Json.reads_record ⟨some c.maxScriptSize, some c.maxKeyLength, some c.maxValueSize,
    some c.maxStateWrites, some c.cacheCapacity, some c.checkInterval, some c.deployBudget,
    some c.invokeBudget, some c.queryBudget, some c.forbiddenGlobals⟩ ?_ rfl
  refine .cons rfl rfl (.field (Json.reads_word "usize" c.maxScriptSize)) ?_
  refine .cons rfl rfl (.field (Json.reads_word "usize" c.maxKeyLength)) ?_
  refine .cons rfl rfl (.field (Json.reads_word "usize" c.maxValueSize)) ?_
  refine .cons rfl rfl (.field (Json.reads_word "usize" c.maxStateWrites)) ?_
  refine .cons rfl rfl (.field (Json.reads_word "usize" c.cacheCapacity)) ?_
  refine .cons rfl rfl (.field (Json.reads_word "u64" c.checkInterval)) ?_
  refine .cons rfl rfl (.field (c.deployBudget.reads_document room)) ?_
  refine .cons rfl rfl (.field (c.invokeBudget.reads_document room)) ?_
  refine .cons rfl rfl (.field (c.queryBudget.reads_document room)) ?_
  exact .cons rfl rfl (.field names) (.nil _)

theorem decode_toJson (c : Config) : Json.decode record.read c.toJson = .ok c :=
  Json.decode_prettyText (c.reads_document 125)

/-! ## Ways into a configuration -/

theorem ofJson_eq_ok_iff {text : String} {c : Config} :
    ofJson text = .ok c ↔ Json.decode record.read text = .ok c ∧ c.Usable := by
  unfold ofJson
  cases Json.decode record.read text with
  | error e => exact ⟨fun h => (by cases h), fun h => (by cases h.1)⟩
  | ok d =>
    rw [Except.ok.injEq]
    exact checked_eq_ok_iff

theorem applyOverrides_eq_ok_iff {c d : Config} {env : String → Option String} :
    c.applyOverrides env = .ok d ↔ overrides.foldlM (override env) c = .ok d ∧ d.Usable := by
  unfold applyOverrides
  cases overrides.foldlM (override env) c with
  | error e => exact ⟨fun h => (by cases h), fun h => (by cases h.1)⟩
  | ok changed =>
    rw [Except.ok.injEq]
    exact checked_eq_ok_iff

/-- **Configurations come back and are sound.**  A configuration passes `check` exactly if
it is `Usable`.  One that passes comes back from its `toJson`.  `ofJson` gives exactly
what `record` reads from the text, and `applyOverrides` exactly what the overrides make of
any configuration, if that passes `check`. -/
theorem documents_sound :
    (∀ c : Config, c.check = .ok () ↔ c.Usable) ∧
    (∀ c : Config, c.check = .ok () → ofJson c.toJson = .ok c) ∧
    (∀ (text : String) (c : Config), ofJson text = .ok c ↔
      Json.decode record.read text = .ok c ∧ c.check = .ok ()) ∧
    ∀ (c : Config) (env : String → Option String) (d : Config), c.applyOverrides env = .ok d ↔
      overrides.foldlM (override env) c = .ok d ∧ d.check = .ok () := by
  refine ⟨fun c => check_eq_ok_iff, fun c passed => ?_, fun text c => ?_, fun c env d => ?_⟩
  · exact ofJson_eq_ok_iff.2 ⟨c.decode_toJson, check_eq_ok_iff.1 passed⟩
  · rw [check_eq_ok_iff]
    exact ofJson_eq_ok_iff
  · rw [check_eq_ok_iff]
    exact applyOverrides_eq_ok_iff

/-! ## An example -/

/-- The most of everything, and names that are not written as they are. -/
def boundless : Config where
  maxScriptSize := 0xffffffffffffffff
  maxKeyLength := 0xffffffffffffffff
  maxValueSize := 0xffffffffffffffff
  maxStateWrites := 0xffffffffffffffff
  cacheCapacity := 0xffffffffffffffff
  checkInterval := 0xffffffffffffffff
  deployBudget := ⟨0xffffffffffffffff, 0xffffffffffffffff, 256⟩
  invokeBudget := ⟨0xffffffffffffffff, 1, 256⟩
  queryBudget := ⟨1, 0xffffffffffffffff, 1⟩
  forbiddenGlobals := ["", "\"\\\"", "two\nlines", "\x00", "näher", "now"]

/-- An environment with another capacity and another call depth. -/
def shallowly : String → Option String
  | "QC_CONTRACT_CACHE_CAPACITY" => some "+1"
  | "QC_CONTRACT_MAX_CALL_DEPTH" => some " 8 "
  | _ => none

theorem boundless_back :
    boundless.check = .ok () ∧ ofJson boundless.toJson = .ok boundless ∧
    boundless.applyOverrides shallowly = .ok { boundless with
      cacheCapacity := 1
      deployBudget := ⟨0xffffffffffffffff, 0xffffffffffffffff, 8⟩
      invokeBudget := ⟨0xffffffffffffffff, 1, 8⟩
      queryBudget := ⟨1, 0xffffffffffffffff, 8⟩ } := by
  obtain ⟨-, back, -, changed⟩ := documents_sound
  have passed : boundless.check = .ok () := rfl
  refine ⟨passed, back boundless passed, (changed _ _ _).2 ⟨?_, rfl⟩⟩
  exact eq_ok_of_toOption (by decide +kernel)

end Config

end LedgerScript
