import LedgerScript.Ledger.Basic
import LedgerScript.Ledger.Statistics

/-!
# Calls

A call runs one entry point and then settles: the pending writes of a deploy
or an invoke that returns a truthy value take effect together, and those of
any other call are dropped.  Before they take effect some rules must hold: the call is
no query, it has succeeded, it wrote only into namespaces of contracts that ran, and it
stayed within its depth.
-/

namespace LedgerScript

/-! ## Rules of a commit -/

/-- Writes about to take effect, and where they come from. -/
structure Candidate where
  kind : CallKind
  succeeded : Bool
  writes : WriteSet
  /-- The namespaces of all contracts that have run. -/
  executed : Spaces
  depth : UInt16
  maxDepth : UInt16

/-- How a commit would break the rules. -/
inductive Violation where
  | byQuery (writes : Nat)
  | afterFailure (writes : Nat)
  | foreign (spaces : List Namespace)
  | tooDeep (depth max : UInt16)
  deriving DecidableEq

/-- The wording of a violation. -/
def Violation.message : Violation → String
  | byQuery writes => s!"query attempted to commit {writes} writes"
  | afterFailure writes => s!"failed call attempted to commit {writes} writes"
  | foreign spaces => "writes to foreign namespaces: " ++ ", ".intercalate spaces
  | tooDeep depth max => s!"call depth exceeded: {depth.toNat} > {max.toNat}"

namespace Candidate

/-- The namespaces with `writes` that are not among `executed`. -/
def foreignSpaces (c : Candidate) : List Namespace :=
  c.writes.spaces.filter (!c.executed.contains ·)

/-- All rules that the commit would break. -/
def violations (c : Candidate) : List Violation :=
  (if c.kind.readOnly then [.byQuery c.writes.size] else []) ++
    (if c.succeeded then [] else [.afterFailure c.writes.size]) ++
    (if c.foreignSpaces.isEmpty then [] else [.foreign c.foreignSpaces]) ++
    (if c.depth ≤ c.maxDepth then [] else [.tooDeep c.depth c.maxDepth])

end Candidate

/-- Several violations in one text. -/
def Violation.summary (violations : List Violation) : String :=
  "; ".intercalate (violations.map message)

/-! ## Parts of a call -/

/-- A call on its way. -/
structure Call where
  ledger : Ledger
  course : Course := {}
  usage : Usage := {}

/-- A part of a call. -/
abbrev Calling := EStateM ContractError Call

namespace Call

/-- Moves on to a phase, if `Course.move` allows it. -/
def move (next : Phase) : Calling Unit := fun c =>
  match c.course.move next with
  | .ok course => .ok () { c with course := course }
  | .error e => .error e c

/-- What can be asked of the ledger without changing it. -/
def ask {α : Type} (f : Ledger → Except ContractError α) : Calling α := fun c =>
  match f c.ledger with
  | .ok a => .ok a c
  | .error e => .error e c

/-- The contract of a source. -/
def load (source : List UInt8) : Calling (Except LoadError Contract) := fun c =>
  let (result, cache) := c.ledger.cache.load source
  .ok result { c with ledger := { c.ledger with cache := cache } }

/-- Drops a contract from the `cache`. -/
def evict (id : ContractId) : Calling Unit := fun c =>
  .ok () { c with ledger := { c.ledger with cache := (c.ledger.cache.evict id).2 } }

/-- Finds a deployed contract. -/
def resolve (id : ContractId) : Calling Contract := fun c =>
  match Ledger.resolve c.ledger.store.entries id c.ledger.cache with
  | .ok contract cache => .ok contract { c with ledger := { c.ledger with cache := cache } }
  | .error e cache => .error e { c with ledger := { c.ledger with cache := cache } }

/-- Runs a contract under the `checkInterval`; what it uses is reported from here on. -/
def execute (contract : Contract) (context : Context) (view : View) (budget : Budget) :
    Calling Outcome := fun c =>
  let (outcome, cache) := LedgerScript.execute c.ledger.surroundings contract context view budget
    c.ledger.config.checkInterval c.ledger.cache
  .ok outcome { c with ledger := { c.ledger with cache := cache }, usage := outcome.usage }

/-! ## Settling -/

/-- The view of a deploy with the code record under `StateKey.code` among its pending
writes.  That there was none is recorded as read, so of two deploys at once one conflicts. -/
def stageCode (id : ContractId) (source : String) (view : View) : Except ContractError View :=
  match CodeRecord.encode ⟨Script.languageName, source⟩ with
  | .ok bytes => .ok ((view.record (StateKey.code id) none).put (StateKey.code id) bytes)
  | .error reason => .error (.invariantViolated ("code record: " ++ reason))

/-- The view that is to be committed: a deploy, which brings a source, does `stageCode`. -/
def stage (id : ContractId) (source : Option String) (view : View) : Calling View :=
  match source with
  | some source => ask fun _ => stageCode id source view
  | none => pure view

/-- Drops the pending writes in the phase `discarding`. -/
def discard (settlement : Settlement) : Calling Settlement := do
  move .discarding
  return settlement

/-- Makes the pending writes take effect if `Access.commit` accepts them, and does
`discard` otherwise. -/
def commit (v : Value) (view : View) : Calling Settlement := do
  match Access.commit (← get).ledger.store view with
  | .ok (store, _) =>
    modify fun c => { c with ledger := { c.ledger with store := store } }
    return .committed v
  | .error e => discard (.failed e)

/-- Settles a call of a kind after its entry point has run; a deploy brings the source of
the contract.  Only a truthy value of a call that is not `readOnly`, without `violations`,
is followed by `commit`. -/
def settle (kind : CallKind) (id : ContractId) (outcome : Outcome) (budget : Budget)
    (source : Option String) : Calling Settlement := do
  match outcome.result with
  | .error e => discard (.failed e)
  | .ok v =>
    if kind.readOnly || !v.truthy then discard (.discarded v)
    else
      move .committing
      let view ← stage id source outcome.view
      let candidate : Candidate :=
        { kind, succeeded := true, writes := view.writes, executed := outcome.executed
          depth := outcome.usage.depth, maxDepth := budget.maxDepth }
      match candidate.violations with
      | [] => commit v view
      | violations => discard (.failed (.invariantViolated (Violation.summary violations)))

/-! ## The three kinds -/

/-- A deploy: the source is compiled, its `Init` runs, and the code record is
written along with the rest. -/
def deploy (r : DeployRequest) : Calling Settlement := do
  let id := ContractId.ofSource r.source
  move .loading
  if ← ask (·.isDeployed id) then
    move .idle
    throw (.alreadyDeployed id)
  match ← load r.source with
  | .error e =>
    move .idle
    throw (.load e)
  | .ok contract =>
    match Text.ofUtf8 r.source with
    | .error fault => throw (.load (.malformed fault.message))
    | .ok source =>
      move .executing
      let budget := (← get).ledger.config.deployBudget
      let outcome ← execute contract (.forDeploy id r.caller r.args r.height) {} budget
      let settlement ← settle .deploy id outcome budget (some source)
      if !settlement.success then evict id
      return settlement

/-- An invoke of a deployed contract, under `invokeBudget`. -/
def invoke (r : InvokeRequest) : Calling Settlement := do
  let contract ← resolve r.contract
  move .executing
  let budget := (← get).ledger.config.invokeBudget
  let outcome ← execute contract
    (.forInvoke r.contract r.caller r.method r.args r.height) {} budget
  settle .invoke r.contract outcome budget none

/-- A query of a deployed contract, under `queryBudget` and through a view that is
`forReading`. -/
def query (r : QueryRequest) : Calling Settlement := do
  let contract ← resolve r.contract
  move .executing
  let budget := (← get).ledger.config.queryBudget
  let outcome ← execute contract (.forQuery r.contract r.caller r.args r.height)
    View.forReading budget
  settle .query r.contract outcome budget none

/-- Runs a whole call on a ledger and reports on it; an error is reported as `failed`. -/
def finish (x : Calling Settlement) (l : Ledger) : Report × Ledger :=
  match x { ledger := l } with
  | .ok settlement c => (⟨settlement, c.usage, c.course.finish⟩, c.ledger)
  | .error e c => (⟨.failed e, c.usage, c.course.finish⟩, c.ledger)

end Call

namespace Ledger

/-- Deploys a contract. -/
def deploy (l : Ledger) (r : DeployRequest) : Report × Ledger := Call.finish (Call.deploy r) l

/-- Invokes a contract. -/
def invoke (l : Ledger) (r : InvokeRequest) : Report × Ledger := Call.finish (Call.invoke r) l

/-- Queries a contract. -/
def query (l : Ledger) (r : QueryRequest) : Report × Ledger := Call.finish (Call.query r) l

end Ledger

end LedgerScript
