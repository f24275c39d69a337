import LedgerScript.Json.Error
import LedgerScript.State.Access
import LedgerScript.Text.Integer

/-!
# Configuration

Limits and budgets of a ledger.  They start from defaults and may be replaced
by variables of the environment, and they are used only after they have been
checked.
-/

namespace LedgerScript

/-- Names from which a program could learn the time, chance or the outer
world. -/
def worldlyNames : List String :=
  ["Date", "Math", "random", "now", "sleep", "setTimeout", "setInterval", "require", "eval",
    "Function", "Reflect", "Proxy", "globalThis", "process", "console", "fetch",
    "XMLHttpRequest", "WebSocket", "io", "os", "fs"]

/-- The configuration of a ledger. -/
structure Config where
  maxScriptSize : UInt64 := 10240
  maxKeyLength : UInt64 := 256
  maxValueSize : UInt64 := 10240
  maxStateWrites : UInt64 := 10000
  cacheCapacity : UInt64 := 256
  checkInterval : UInt64 := 1
  deployBudget : Budget := ⟨2000000, 16 * 1024 * 1024, 64⟩
  invokeBudget : Budget := ⟨1000000, 8 * 1024 * 1024, 64⟩
  queryBudget : Budget := ⟨500000, 8 * 1024 * 1024, 64⟩
  forbiddenGlobals : List String := worldlyNames
  deriving DecidableEq

/-- What makes a value unusable. -/
inductive UnusableValue where
  | zero
  | depthAbove (depth : UInt16) (max : UInt16)
  | unreadable (fault : Text.IntegerFault)
  deriving DecidableEq

/-- The wording of what makes a value unusable. -/
def UnusableValue.message : UnusableValue → String
  | zero => "must be greater than zero"
  | depthAbove depth max => s!"max_call_depth {depth.toNat} exceeds {max.toNat}"
  | unreadable fault => fault.message

/-- Why a configuration is refused. -/
inductive ConfigError where
  | parse (e : Json.Error)
  | invalid (field : String) (why : UnusableValue)
  deriving DecidableEq

namespace ConfigError

/-- The wording of an error. -/
def message : ConfigError → String
  | parse e => "config parse error: " ++ e.message
  | invalid field why => s!"invalid config value for {field}: " ++ why.message

/-- The name of the kind of an error. -/
def kind : ConfigError → String
  | parse _ => "parse"
  | invalid .. => "invalid_value"

end ConfigError

namespace Config

/-- What scripts may store, as `StateLimits`. -/
def limits (c : Config) : StateLimits := ⟨c.maxKeyLength, c.maxValueSize, c.maxStateWrites⟩

/-! ## Checks -/

/-- The call depth that a budget may allow. -/
def maxCallDepth : UInt16 := 256

/-- Refuses zero, as `invalid` for the field. -/
def positive (field : String) (n : Nat) : Except ConfigError Unit :=
  if n = 0 then .error (.invalid field .zero) else .ok ()

/-- A budget must allow something, and no more depth than `maxCallDepth`. -/
def checkBudget (field : String) (b : Budget) : Except ConfigError Unit := do
  positive field b.maxSteps.toNat
  positive field b.maxMemory.toNat
  positive field b.maxDepth.toNat
  if maxCallDepth < b.maxDepth then
    throw (.invalid field (.depthAbove b.maxDepth maxCallDepth))

/-- Refuses limits that are zero, and budgets that `checkBudget` refuses, with the first
field at fault. -/
def check (c : Config) : Except ConfigError Unit := do
  positive "max_script_size" c.maxScriptSize.toNat
  positive "max_state_key_length" c.maxKeyLength.toNat
  positive "max_state_value_size" c.maxValueSize.toNat
  positive "max_state_writes" c.maxStateWrites.toNat
  positive "cache_capacity" c.cacheCapacity.toNat
  positive "check_interval" c.checkInterval.toNat
  checkBudget "deploy_budget" c.deployBudget
  checkBudget "invoke_budget" c.invokeBudget
  checkBudget "query_budget" c.queryBudget

/-- The configuration itself, if it passes `check`. -/
def checked (c : Config) : Except ConfigError Config := do
  c.check
  return c

/-! ## Overrides -/

/-- Changes all three budgets. -/
def mapBudgets (c : Config) (f : Budget → Budget) : Config :=
  { c with
    deployBudget := f c.deployBudget
    invokeBudget := f c.invokeBudget
    queryBudget := f c.queryBudget }

/-- A list of names with commas between them; blanks around a name do not
count, nor do empty names. -/
def splitNames (text : String) : List String :=
  ((text.splitOn ",").map Text.trim).filter (· ≠ "")

/-- A variable of the environment, and what its value changes. -/
structure Override where
  name : String
  set : Config → String → Except ConfigError Config

/-- A variable that holds a number of at most `max`, with blanks around it. -/
def Override.number (name : String) (max : Nat) (set : Config → Nat → Config) : Override where
  name := name
  set c text :=
    match Text.readNat max (Text.trim text).toList with
    | .ok n => .ok (set c n)
    | .error fault => .error (.invalid name (.unreadable fault))

/-- A variable that holds a word. -/
def Override.word (name : String) (set : Config → UInt64 → Config) : Override :=
  .number name 0xffffffffffffffff fun c n => set c (UInt64.ofNat n)

/-- The variables that are heeded, in the order in which they are read. -/
def overrides : List Override := [
  .word "QC_CONTRACT_MAX_SCRIPT_SIZE" fun c n => { c with maxScriptSize := n },
  .word "QC_CONTRACT_MAX_KEY_LENGTH" fun c n => { c with maxKeyLength := n },
  .word "QC_CONTRACT_MAX_VALUE_SIZE" fun c n => { c with maxValueSize := n },
  .word "QC_CONTRACT_MAX_STATE_WRITES" fun c n => { c with maxStateWrites := n },
  .word "QC_CONTRACT_CACHE_CAPACITY" fun c n => { c with cacheCapacity := n },
  .word "QC_CONTRACT_CHECK_INTERVAL" fun c n => { c with checkInterval := n },
  .word "QC_CONTRACT_DEPLOY_STEPS" fun c n =>
    { c with deployBudget := { c.deployBudget with maxSteps := n } },
  .word "QC_CONTRACT_INVOKE_STEPS" fun c n =>
    { c with invokeBudget := { c.invokeBudget with maxSteps := n } },
  .word "QC_CONTRACT_QUERY_STEPS" fun c n =>
    { c with queryBudget := { c.queryBudget with maxSteps := n } },
  .word "QC_CONTRACT_MAX_MEMORY" fun c n => c.mapBudgets ({ · with maxMemory := n }),
  .number "QC_CONTRACT_MAX_CALL_DEPTH" 0xffff fun c n =>
    c.mapBudgets ({ · with maxDepth := UInt16.ofNat n }),
  ⟨"QC_CONTRACT_FORBIDDEN_GLOBALS", fun c text =>
    .ok { c with forbiddenGlobals := splitNames text }⟩]

/-- Heeds one variable, if `env` has it. -/
def override (env : String → Option String) (c : Config) (o : Override) :
    Except ConfigError Config :=
  match env o.name with
  | some text => o.set c text
  | none => .ok c

/-- The configuration with the `overrides` that the environment has, `checked`. -/
def applyOverrides (c : Config) (env : String → Option String) : Except ConfigError Config := do
  (← overrides.foldlM (override env) c).checked

end Config

end LedgerScript
