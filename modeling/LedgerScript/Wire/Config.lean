import LedgerScript.Ledger.Config
import LedgerScript.Wire.Limits

/-!
# Configurations as documents

A configuration is written over several lines.  One that is read may leave
out fields, which then keep their defaults, and must pass its checks.
-/

namespace LedgerScript

open Json (Document Record RecordField Read)

namespace Config

/-- The fields of a configuration that have been read. -/
structure Draft where
  maxScriptSize : Option UInt64 := none
  maxKeyLength : Option UInt64 := none
  maxValueSize : Option UInt64 := none
  maxStateWrites : Option UInt64 := none
  cacheCapacity : Option UInt64 := none
  checkInterval : Option UInt64 := none
  deployBudget : Option Budget := none
  invokeBudget : Option Budget := none
  queryBudget : Option Budget := none
  forbiddenGlobals : Option (List String) := none

/-- The configuration of a draft; what the draft leaves open is as in `c`. -/
def Draft.laidOn (d : Draft) (c : Config) : Config where
  maxScriptSize := d.maxScriptSize.getD c.maxScriptSize
  maxKeyLength := d.maxKeyLength.getD c.maxKeyLength
  maxValueSize := d.maxValueSize.getD c.maxValueSize
  maxStateWrites := d.maxStateWrites.getD c.maxStateWrites
  cacheCapacity := d.cacheCapacity.getD c.cacheCapacity
  checkInterval := d.checkInterval.getD c.checkInterval
  deployBudget := d.deployBudget.getD c.deployBudget
  invokeBudget := d.invokeBudget.getD c.invokeBudget
  queryBudget := d.queryBudget.getD c.queryBudget
  forbiddenGlobals := d.forbiddenGlobals.getD c.forbiddenGlobals

/-- How a configuration is read. -/
def record : Record Draft Config where
  type := "ServiceConfig"
  fields := [
    .of "max_script_size" (fun _ => Json.readLength) Draft.maxScriptSize
      fun d n => { d with maxScriptSize := some n },
    .of "max_state_key_length" (fun _ => Json.readLength) Draft.maxKeyLength
      fun d n => { d with maxKeyLength := some n },
    .of "max_state_value_size" (fun _ => Json.readLength) Draft.maxValueSize
      fun d n => { d with maxValueSize := some n },
    .of "max_state_writes" (fun _ => Json.readLength) Draft.maxStateWrites
      fun d n => { d with maxStateWrites := some n },
    .of "cache_capacity" (fun _ => Json.readLength) Draft.cacheCapacity
      fun d n => { d with cacheCapacity := some n },
    .of "check_interval" (fun _ => Json.readWord) Draft.checkInterval
      fun d n => { d with checkInterval := some n },
    .of "deploy_budget" Budget.record.read Draft.deployBudget
      fun d b => { d with deployBudget := some b },
    .of "invoke_budget" Budget.record.read Draft.invokeBudget
      fun d b => { d with invokeBudget := some b },
    .of "query_budget" Budget.record.read Draft.queryBudget
      fun d b => { d with queryBudget := some b },
    .of "forbidden_globals" Json.readStrings Draft.forbiddenGlobals
      fun d names => { d with forbiddenGlobals := some names }]
  start := {}
  finish d := return d.laidOn {}
  lenient := true

/-- A configuration as a document. -/
def document (c : Config) : Document :=
  .object [
    ("max_script_size", .int c.maxScriptSize.toNat),
    ("max_state_key_length", .int c.maxKeyLength.toNat),
    ("max_state_value_size", .int c.maxValueSize.toNat),
    ("max_state_writes", .int c.maxStateWrites.toNat),
    ("cache_capacity", .int c.cacheCapacity.toNat),
    ("check_interval", .int c.checkInterval.toNat),
    ("deploy_budget", c.deployBudget.document),
    ("invoke_budget", c.invokeBudget.document),
    ("query_budget", c.queryBudget.document),
    ("forbidden_globals", .list (c.forbiddenGlobals.map .str))]

/-- A configuration as text. -/
def toJson (c : Config) : String :=
  c.document.prettyText

/-- The configuration that `record` reads from a text, `checked`. -/
def ofJson (text : String) : Except ConfigError Config :=
  match Json.decode record.read text with
  | .error e => .error (.parse e)
  | .ok c => c.checked

end Config

end LedgerScript
