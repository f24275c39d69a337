import LedgerScript.Ledger.Cache
import LedgerScript.Ledger.Config
import LedgerScript.Ledger.Phase
import LedgerScript.Machine.Evaluator
import LedgerScript.Wire.Code

/-!
# Ledgers

A ledger holds committed state and runs contracts over it.  A contract is
deployed when its code record is part of the committed state; the cache only
spares compiling it again.
-/

namespace LedgerScript

/-- A ledger. -/
structure Ledger where
  config : Config
  cache : Cache
  store : Store

namespace Ledger

/-- A ledger over a store, with nothing in its cache. -/
def new (config : Config) (store : Store) : Ledger where
  config := config
  cache := .new ⟨config.maxScriptSize.toNat, config.forbiddenGlobals⟩ config.cacheCapacity.toNat
  store := store

/-- The code record that `entries` holds of a contract, if it is deployed; `corrupted` if
the bytes are none. -/
def codeRecord? (entries : Committed) (id : ContractId) :
    Except ContractError (Option CodeRecord) :=
  match entries[StateKey.code id]? with
  | none => .ok none
  | some bytes =>
    match CodeRecord.decode bytes with
    | .ok record => .ok (some record)
    | .error e => .error (corrupted (StateKey.code id) e.message)

/-- The contract is deployed: `store` has a code record of it. -/
def isDeployed (l : Ledger) (id : ContractId) : Except ContractError Bool :=
  (codeRecord? l.store.entries id).map Option.isSome

/-- Compiles a deployed contract anew from its code record.  The record must be of the
running language, else `engineMismatch`, and its source must be the contract's, else
`corrupted`. -/
def reload (id : ContractId) (record : CodeRecord) : EStateM ContractError Cache Contract :=
  fun cache =>
    if record.language = Script.languageName then
      match cache.load (Text.utf8 record.source) with
      | (.error e, cache) => .error (.load e) cache
      | (.ok contract, cache) =>
        if contract.id = id then .ok contract cache
        else
          .error (corrupted (StateKey.code id) s!"code hashes to {contract.id.hex}")
            (cache.evict contract.id).2
    else .error (.load (.engineMismatch record.language Script.languageName)) cache

/-- Finds a deployed contract, at hand or by its code record; `contractNotFound` if it has
none. -/
def resolve (entries : Committed) (id : ContractId) : EStateM ContractError Cache Contract :=
  fun cache =>
    match codeRecord? entries id with
    | .error e => .error e cache
    | .ok none => .error (.contractNotFound id) cache
    | .ok (some record) =>
      match cache.get id with
      | (some contract, cache) => .ok contract cache
      | (none, cache) => reload id record cache

/-- What the calls of a ledger stand in. -/
def surroundings (l : Ledger) : Surroundings Cache where
  entries := l.store.entries
  limits := l.config.limits
  resolve := resolve l.store.entries

end Ledger

end LedgerScript
