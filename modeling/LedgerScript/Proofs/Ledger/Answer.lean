import LedgerScript.Ledger.Call
import LedgerScript.Proofs.Sequence
import LedgerScript.Proofs.Wire.CodeRecord

/-!
# What a ledger answers

A call opens by finding its contract (`Ledger.opening`), runs the entry point
(`Entry.run`), and then comes to a verdict on the outcome (`Entry.verdict`).
Main statements: `answer_of_refused`, `answer_of_entered`.
-/

namespace LedgerScript

/-! ## Requests -/

/-- What a host asks of a `Ledger`. -/
inductive Request where
  | deploy (r : DeployRequest)
  | invoke (r : InvokeRequest)
  | query (r : QueryRequest)

/-- The `CallKind` of the call that a request makes. -/
def Request.kind : Request → CallKind
  | deploy _ => .deploy
  | invoke _ => .invoke
  | query _ => .query

/-- The contract that a request is for. -/
def Request.target : Request → ContractId
  | deploy r => ContractId.ofSource r.source
  | invoke r => r.contract
  | query r => r.contract

/-- Does what a request asks for. -/
def Ledger.answer (l : Ledger) : Request → Report × Ledger
  | .deploy r => l.deploy r
  | .invoke r => l.invoke r
  | .query r => l.query r

/-- The budget of a kind of calls. -/
def Config.budget (c : Config) : CallKind → Budget
  | .deploy => c.deployBudget
  | .invoke => c.invokeBudget
  | .query => c.queryBudget

/-! ## Phases -/

def Course.on (c : Course) (next : Phase) : Course := ⟨next, c.phase :: c.past⟩

/-- The `Course` of a call before its entry point runs. -/
def CallKind.opening : CallKind → Course
  | deploy => Course.on {} .loading
  | _ => {}

theorem Call.move_of_leadsTo {c : Call} {next : Phase} (h : c.course.phase.leadsTo next = true) :
    Call.move next c = .ok () { c with course := c.course.on next } := by
  unfold Call.move Course.move
  rw [if_pos h]
  rfl

theorem Call.ask_of_ok {α : Type} {f : Ledger → Except ContractError α} {c : Call} {a : α}
    (h : f c.ledger = .ok a) : Call.ask f c = .ok a c := by
  unfold Call.ask
  rw [h]

theorem Call.ask_of_error {α : Type} {f : Ledger → Except ContractError α} {c : Call}
    {e : ContractError} (h : f c.ledger = .error e) : Call.ask f c = .error e c := by
  unfold Call.ask
  rw [h]

/-! ## Openings -/

/-- A contract that has been found and is about to run. -/
structure Entry where
  contract : Contract
  context : Context
  /-- The cache as it was when the contract had been found. -/
  cache : Cache
  /-- The source that a deploy brings. -/
  source : Option String

/-- Why no contract runs, and the cache that is left. -/
structure Refusal where
  error : ContractError
  cache : Cache

namespace Ledger

/-- Compiles a source, unless `isDeployed` says that it is deployed. -/
def openSource (l : Ledger) (r : DeployRequest) : Except Refusal Entry :=
  let id := ContractId.ofSource r.source
  match l.isDeployed id with
  | .error e => .error ⟨e, l.cache⟩
  | .ok true => .error ⟨.alreadyDeployed id, l.cache⟩
  | .ok false =>
    match l.cache.load r.source with
    | (.error e, cache) => .error ⟨.load e, cache⟩
    | (.ok contract, cache) =>
      match Text.ofUtf8 r.source with
      | .error fault => .error ⟨.load (.malformed fault.message), cache⟩
      | .ok source => .ok ⟨contract, .forDeploy id r.caller r.args r.height, cache, some source⟩

/-- Finds the contract of a context by `resolve`. -/
def openDeployed (l : Ledger) (context : Context) : Except Refusal Entry :=
  match resolve l.store.entries context.contract l.cache with
  | .error e cache => .error ⟨e, cache⟩
  | .ok contract cache => .ok ⟨contract, context, cache, none⟩

/-- How a call opens: `openSource` for a deploy, `openDeployed` for any other one. -/
def opening (l : Ledger) : Request → Except Refusal Entry
  | .deploy r => l.openSource r
  | .invoke r => l.openDeployed (.forInvoke r.contract r.caller r.method r.args r.height)
  | .query r => l.openDeployed (.forQuery r.contract r.caller r.args r.height)

end Ledger

/-- The errors of `Ledger.opening`, for which no contract is found or a source is not
deployed. -/
def ContractError.OfOpening : ContractError → Prop
  | .load _ | .alreadyDeployed _ | .contractNotFound _ | .state _ => True
  | _ => False

namespace Ledger

variable {l : Ledger} {e : ContractError}

theorem codeRecord?_refuses {entries : Committed} {id : ContractId}
    (h : codeRecord? entries id = .error e) : e.OfOpening := by
  unfold codeRecord? at h
  split at h
  · cases h
  · split at h <;> cases h
    trivial

theorem isDeployed_refuses {id : ContractId} (h : l.isDeployed id = .error e) : e.OfOpening := by
  unfold isDeployed at h
  cases recorded : codeRecord? l.store.entries id <;> rw [recorded] at h <;> cases h
  exact codeRecord?_refuses recorded

theorem reload_refuses {id : ContractId} {record : CodeRecord} {before after : Cache}
    (h : reload id record before = .error e after) : e.OfOpening := by
  unfold reload at h
  split at h
  · split at h
    · cases h
      trivial
    · split at h <;> cases h
      trivial
  · cases h
    trivial

theorem resolve_refuses {entries : Committed} {id : ContractId} {before after : Cache}
    (h : resolve entries id before = .error e after) : e.OfOpening := by
  unfold resolve at h
  split at h
  · rename_i failed
    cases h
    exact codeRecord?_refuses failed
  · cases h
    trivial
  · split at h
    · cases h
    · exact reload_refuses h

/-- A `Refusal` of `opening` has one of the errors `ContractError.OfOpening`. -/
theorem opening_refuses {r : Request} {refusal : Refusal} (h : l.opening r = .error refusal) :
    refusal.error.OfOpening := by
  have deployed : ∀ context, l.openDeployed context = .error refusal →
      refusal.error.OfOpening := by
    intro context h
    unfold openDeployed at h
    split at h <;> cases h
    rename_i failed
    exact resolve_refuses failed
  cases r with
  | invoke r => exact deployed _ h
  | query r => exact deployed _ h
  | deploy r =>
    change l.openSource r = .error refusal at h
    unfold openSource at h
    dsimp only at h
    split at h
    · rename_i failed
      cases h
      exact isDeployed_refuses failed
    · cases h
      trivial
    · split at h
      · cases h
        trivial
      · split at h <;> cases h
        trivial

end Ledger

/-! ## Verdicts -/

/-- What becomes of an `Outcome`: how it is settled, the store that is left, and the
phases after the entry point has run. -/
structure Verdict where
  settlement : Settlement
  store : Store
  phases : List Phase

/-- A view with the code record of a source among its pending writes. -/
def View.withCode (view : View) (id : ContractId) (source : String) : View :=
  (view.record (StateKey.code id) none).put (StateKey.code id)
    (CodeRecord.bytes ⟨Script.languageName, source⟩)

namespace Entry

/-- The view that the entry point begins with. -/
def view (e : Entry) : View := { readOnly := e.context.kind.readOnly }

/-- Runs the entry point by `execute`. -/
def run (e : Entry) (l : Ledger) : Outcome × Cache :=
  execute l.surroundings e.contract e.context e.view (l.config.budget e.context.kind)
    l.config.checkInterval e.cache

/-- What holds of a contract that `Ledger.opening` has found: it is to run in its own
namespace, and a source that is brought has no code record yet. -/
structure Ready (e : Entry) (l : Ledger) : Prop where
  space : e.context.space = e.context.contract.space
  unrecorded : e.source.isSome = true →
    l.store.entries[StateKey.code e.context.contract]? = none

/-- The view of an outcome with the code record of a deploy. -/
def staged (e : Entry) (outcome : Outcome) : View :=
  match e.source with
  | some source => outcome.view.withCode e.context.contract source
  | none => outcome.view

/-- The writes of an outcome as `Candidate.violations` sees them. -/
def candidate (e : Entry) (l : Ledger) (outcome : Outcome) : Candidate where
  kind := e.context.kind
  succeeded := true
  writes := (e.staged outcome).writes
  executed := outcome.executed
  depth := outcome.usage.depth
  maxDepth := (l.config.budget e.context.kind).maxDepth

/-- The verdict on an outcome: what `Call.settle` makes of it, without the call. -/
def verdict (e : Entry) (l : Ledger) (outcome : Outcome) : Verdict :=
  match outcome.result with
  | .error f => ⟨.failed f, l.store, [.discarding]⟩
  | .ok v =>
    if e.context.kind.readOnly || !v.truthy then ⟨.discarded v, l.store, [.discarding]⟩
    else
      match (e.candidate l outcome).violations with
      | [] =>
        match Access.commit l.store (e.staged outcome) with
        | .ok (after, _) => ⟨.committed v, after, [.committing]⟩
        | .error f => ⟨.failed f, l.store, [.committing, .discarding]⟩
      | violations =>
        ⟨.failed (.invariantViolated (Violation.summary violations)), l.store,
          [.committing, .discarding]⟩

end Entry

namespace Call

/-- A `Call` after a verdict. -/
def judged (c : Call) (v : Verdict) : Call :=
  { c with
    ledger := { c.ledger with store := v.store }
    course := v.phases.foldl Course.on c.course }

theorem discard_eq {c : Call} (settlement : Settlement)
    (h : c.course.phase.leadsTo .discarding = true) :
    discard settlement c = .ok settlement { c with course := c.course.on .discarding } := by
  unfold discard
  rw [bind_of_ok (move_of_leadsTo h)]
  rfl

theorem commit_of_ok {c : Call} (v : Value) {view : View} {after : Store} {w : WriteSet}
    (h : Access.commit c.ledger.store view = .ok (after, w)) :
    commit v view c = .ok (.committed v) { c with ledger := { c.ledger with store := after } } := by
  unfold commit
  rw [bind_of_ok (x := get) (a := c) (t := c) rfl, h]
  rfl

theorem commit_of_error {c : Call} (v : Value) {view : View} {e : ContractError}
    (h : Access.commit c.ledger.store view = .error e)
    (committing : c.course.phase = .committing) :
    commit v view c = .ok (.failed e) { c with course := c.course.on .discarding } := by
  unfold commit
  rw [bind_of_ok (x := get) (a := c) (t := c) rfl, h]
  exact discard_eq _ (by rw [committing]; rfl)

/-- A code record can always be written, so `stageCode` never reports that an
invariant is violated. -/
theorem stageCode_eq (id : ContractId) (source : String) (view : View) :
    stageCode id source view = .ok (view.withCode id source) := by
  unfold stageCode
  rw [CodeRecord.encode_eq_ok]
  rfl

theorem stage_eq (e : Entry) (outcome : Outcome) (c : Call) :
    stage e.context.contract e.source outcome.view c = .ok (e.staged outcome) c := by
  unfold stage Entry.staged
  cases e.source with
  | none => rfl
  | some source => exact ask_of_ok (f := fun _ => stageCode _ _ _) (stageCode_eq _ source _)

/-- `settle` comes to `Entry.verdict`. -/
theorem settle_eq (e : Entry) (outcome : Outcome) {c : Call}
    (executing : c.course.phase = .executing) :
    settle e.context.kind e.context.contract outcome (c.ledger.config.budget e.context.kind)
        e.source c =
      .ok (e.verdict c.ledger outcome).settlement (c.judged (e.verdict c.ledger outcome)) := by
  have discarding : c.course.phase.leadsTo .discarding = true := by rw [executing]; rfl
  have committing : move .committing c = .ok () { c with course := c.course.on .committing } :=
    move_of_leadsTo (by rw [executing]; rfl)
  unfold settle Entry.verdict
  cases outcome.result with
  | error f => exact discard_eq _ discarding
  | ok v =>
    dsimp only
    split
    · exact discard_eq _ discarding
    · rw [bind_of_ok committing, bind_of_ok (stage_eq e outcome _)]
      unfold Entry.candidate
      generalize Candidate.violations _ = violations
      cases violations with
      | nil =>
        dsimp only
        cases hc : Access.commit c.ledger.store (e.staged outcome) with
        | ok done => exact commit_of_ok v hc
        | error f => exact commit_of_error v hc rfl
      | cons first rest => exact discard_eq _ rfl

/-- Runs the entry point of a contract that has been found, and then does `settle`. -/
def enter (contract : Contract) (context : Context) (source : Option String) :
    Calling Settlement := do
  move .executing
  let budget := (← get).ledger.config.budget context.kind
  let outcome ← execute contract context { readOnly := context.kind.readOnly } budget
  settle context.kind context.contract outcome budget source

/-- A call that has come to the `Entry.verdict` on its run. -/
def settled (e : Entry) (l : Ledger) (course : Course) : Call :=
  let v := e.verdict l (e.run l).1
  { ledger := { l with cache := (e.run l).2, store := v.store }
    course := v.phases.foldl Course.on (course.on .executing)
    usage := (e.run l).1.usage }

theorem enter_eq (e : Entry) (l : Ledger) (course : Course)
    (opened : course.phase.leadsTo .executing = true) :
    enter e.contract e.context e.source
        { ledger := { l with cache := e.cache }, course := course } =
      .ok (e.verdict l (e.run l).1).settlement (settled e l course) := by
  unfold enter
  rw [bind_of_ok (move_of_leadsTo opened), bind_of_ok (x := get) rfl]
  let ran : Call :=
    { ledger := { l with cache := (e.run l).2 }
      course := course.on .executing
      usage := (e.run l).1.usage }
  have executed : execute e.contract e.context e.view (l.config.budget e.context.kind)
      { ledger := { l with cache := e.cache }, course := course.on .executing } =
      .ok (e.run l).1 ran := rfl
  change (execute e.contract e.context e.view (l.config.budget e.context.kind) >>= _) _ = _
  rw [bind_of_ok executed]
  exact settle_eq (c := ran) e _ rfl

/-- Runs the contract that `resolve` finds for a context. -/
def enterDeployed (context : Context) : Calling Settlement := do
  let contract ← resolve context.contract
  enter contract context none

/-- Runs the contract of a source that is not deployed yet, if `Cache.load` has given one. -/
def enterSource (r : DeployRequest) : Except LoadError Contract → Calling Settlement
  | .error e => do
    move .idle
    throw (.load e)
  | .ok contract =>
    match Text.ofUtf8 r.source with
    | .error fault => throw (.load (.malformed fault.message))
    | .ok source => do
      let id := ContractId.ofSource r.source
      let settlement ← enter contract (.forDeploy id r.caller r.args r.height) (some source)
      if !settlement.success then evict id
      return settlement

/-- `deploy` compiles a source only when `isDeployed` says no. -/
theorem deploy_eq (r : DeployRequest) (l : Ledger) :
    deploy r { ledger := l } =
      match l.isDeployed (ContractId.ofSource r.source) with
      | .error e => .error e { ledger := l, course := CallKind.deploy.opening }
      | .ok true =>
        .error (.alreadyDeployed (ContractId.ofSource r.source))
          { ledger := l, course := CallKind.deploy.opening.on .idle }
      | .ok false =>
        enterSource r (l.cache.load r.source).1
          { ledger := { l with cache := (l.cache.load r.source).2 }
            course := CallKind.deploy.opening } := by
  have loading : move .loading { ledger := l } =
      .ok () { ledger := l, course := CallKind.deploy.opening } := rfl
  unfold deploy
  rw [bind_of_ok loading]
  cases hd : l.isDeployed (ContractId.ofSource r.source) with
  | error e =>
    rw [bind_of_error (ask_of_error (c := { ledger := l, course := _ }) hd)]
  | ok b =>
    rw [bind_of_ok (ask_of_ok (c := { ledger := l, course := _ }) hd)]
    cases b with
    | true => rfl
    | false =>
      dsimp only
      rw [if_neg Bool.false_ne_true]
      have loaded : load r.source { ledger := l, course := CallKind.deploy.opening } =
          .ok (l.cache.load r.source).1
            { ledger := { l with cache := (l.cache.load r.source).2 }
              course := CallKind.deploy.opening } := rfl
      rw [bind_of_ok loaded]
      cases (l.cache.load r.source).1 with
      | error e => rfl
      | ok contract =>
        unfold enterSource
        dsimp only
        cases Text.ofUtf8 r.source with
        | error fault => rfl
        | ok source =>
          unfold enter
          simp only [bind_assoc]
          rfl

theorem finish_of_ok {x : Calling Settlement} {l : Ledger} {settlement : Settlement} {c : Call}
    (h : x { ledger := l } = .ok settlement c) :
    finish x l = (⟨settlement, c.usage, c.course.finish⟩, c.ledger) := by
  unfold finish
  rw [h]

theorem finish_of_error {x : Calling Settlement} {l : Ledger} {e : ContractError} {c : Call}
    (h : x { ledger := l } = .error e c) :
    finish x l = (⟨.failed e, c.usage, c.course.finish⟩, c.ledger) := by
  unfold finish
  rw [h]

end Call

/-! ## Answers -/

namespace Ledger

variable {l : Ledger} {refusal : Refusal} {e : Entry}

theorem resolve_of_refused {context : Context} (h : l.openDeployed context = .error refusal) :
    Call.resolve context.contract { ledger := l } =
      .error refusal.error { ledger := { l with cache := refusal.cache } } := by
  unfold openDeployed at h
  unfold Call.resolve
  dsimp only
  cases hr : resolve l.store.entries context.contract l.cache with
  | ok contract cache =>
    rw [hr] at h
    cases h
  | error e cache =>
    rw [hr] at h
    cases h
    rfl

theorem resolve_of_entered {context : Context} (h : l.openDeployed context = .ok e) :
    e.context = context ∧ e.source = none ∧
      Call.resolve context.contract { ledger := l } =
        .ok e.contract { ledger := { l with cache := e.cache } } := by
  unfold openDeployed at h
  unfold Call.resolve
  dsimp only
  cases hr : resolve l.store.entries context.contract l.cache with
  | ok contract cache =>
    rw [hr] at h
    cases h
    exact ⟨rfl, rfl, rfl⟩
  | error e cache =>
    rw [hr] at h
    cases h

theorem deploy_of_refused {r : DeployRequest} (h : l.openSource r = .error refusal) :
    Call.finish (Call.deploy r) l =
      (⟨.failed refusal.error, {}, CallKind.deploy.opening.finish⟩,
        { l with cache := refusal.cache }) := by
  have deployed := Call.deploy_eq r l
  unfold openSource at h
  dsimp only at h
  unfold Call.finish
  cases hd : l.isDeployed (ContractId.ofSource r.source) with
  | error e =>
    rw [hd] at h deployed
    cases h
    rw [deployed]
  | ok b =>
    cases b with
    | true =>
      rw [hd] at h deployed
      cases h
      rw [deployed]
      rfl
    | false =>
      rw [hd] at h deployed
      rw [deployed]
      cases hl : l.cache.load r.source with
      | mk result cache =>
        rw [hl] at h
        cases result with
        | error e =>
          cases h
          rfl
        | ok contract =>
          unfold Call.enterSource
          dsimp only at h ⊢
          cases hs : Text.ofUtf8 r.source with
          | error fault =>
            rw [hs] at h
            cases h
            rfl
          | ok source =>
            rw [hs] at h
            cases h

/-- The cache after a call: the contract of a deploy that did not succeed goes. -/
def cacheAfter (e : Entry) (settlement : Settlement) (cache : Cache) : Cache :=
  if e.source.isSome && !settlement.success then (cache.evict e.context.contract).2 else cache

/-- What a call of a kind answers once its contract has been found: the `Entry.verdict` on
`Entry.run`. -/
def answered (l : Ledger) (kind : CallKind) (e : Entry) : Report × Ledger :=
  let v := e.verdict l (e.run l).1
  (⟨v.settlement, (e.run l).1.usage,
      (v.phases.foldl Course.on (kind.opening.on .executing)).finish⟩,
    { l with store := v.store, cache := cacheAfter e v.settlement (e.run l).2 })

/-- A source that `openSource` lets run was not deployed, is text, and `Cache.load` has
admitted it. -/
theorem openSource_eq_ok {r : DeployRequest} (h : l.openSource r = .ok e) :
    ∃ source, l.isDeployed (ContractId.ofSource r.source) = .ok false ∧
      l.cache.load r.source = (.ok e.contract, e.cache) ∧ Text.ofUtf8 r.source = .ok source ∧
        e.context = .forDeploy (ContractId.ofSource r.source) r.caller r.args r.height ∧
          e.source = some source := by
  unfold openSource at h
  dsimp only at h
  cases hd : l.isDeployed (ContractId.ofSource r.source) with
  | error f =>
    rw [hd] at h
    cases h
  | ok b =>
    cases hl : l.cache.load r.source with
    | mk result cache =>
      cases b <;> cases result <;> rw [hd, hl] at h <;> try cases h
      cases hs : Text.ofUtf8 r.source with
      | error fault =>
        rw [hs] at h
        cases h
      | ok source =>
        rw [hs] at h
        cases h
        exact ⟨source, rfl, rfl, rfl, rfl, rfl⟩

theorem deploy_of_entered {r : DeployRequest} (h : l.openSource r = .ok e) :
    Call.finish (Call.deploy r) l = l.answered .deploy e := by
  obtain ⟨source, fresh, loaded, text, context, same⟩ := openSource_eq_ok h
  have entered := Call.enter_eq e l CallKind.deploy.opening rfl
  have deployed := Call.deploy_eq r l
  rw [fresh, loaded] at deployed
  unfold Call.enterSource at deployed
  dsimp only at deployed
  rw [text] at deployed
  dsimp only at deployed
  have target : ContractId.ofSource r.source = e.context.contract := by
    rw [context]
    rfl
  rw [← context, ← same, target, bind_of_ok entered] at deployed
  unfold Call.finish answered cacheAfter
  rw [deployed, same]
  dsimp only
  cases (e.verdict l (e.run l).1).settlement <;> rfl

theorem enterDeployed_of_entered {context : Context} (h : l.openDeployed context = .ok e)
    (kind : CallKind) (same : kind.opening = {}) :
    Call.finish (Call.enterDeployed context) l = l.answered kind e := by
  obtain ⟨rfl, source, found⟩ := resolve_of_entered h
  have entered := Call.enter_eq e l {} rfl
  rw [source] at entered
  have whole := (bind_of_ok (f := fun contract => Call.enter contract e.context none) found).trans
    entered
  refine (Call.finish_of_ok whole).trans ?_
  unfold answered cacheAfter
  rw [source, same]
  rfl

theorem unrecorded_of_not_deployed {id : ContractId} (h : l.isDeployed id = .ok false) :
    l.store.entries[StateKey.code id]? = none := by
  unfold isDeployed codeRecord? at h
  cases hb : l.store.entries[StateKey.code id]? with
  | none => rfl
  | some bytes =>
    rw [hb] at h
    dsimp only at h
    cases hd : CodeRecord.decode bytes <;> rw [hd] at h <;> cases h

/-- The `Entry` that `opening` gives is what was asked for; only a deploy brings a source,
and it is `Entry.Ready`. -/
theorem opening_eq_ok {r : Request} (h : l.opening r = .ok e) :
    e.context.kind = r.kind ∧ e.context.contract = r.target ∧
      (e.source.isSome = true → r.kind = .deploy) ∧ e.Ready l := by
  cases r with
  | deploy r =>
    obtain ⟨source, fresh, -, -, context, -⟩ := openSource_eq_ok h
    rw [context]
    refine ⟨rfl, rfl, fun _ => rfl, ?_, fun _ => ?_⟩
    · rw [context]
      rfl
    · rw [context]
      exact unrecorded_of_not_deployed fresh
  | invoke r =>
    obtain ⟨context, source, -⟩ := resolve_of_entered h
    rw [context, source]
    refine ⟨rfl, rfl, fun h => absurd h Bool.false_ne_true, context ▸ rfl, fun h => ?_⟩
    rw [source] at h
    exact absurd h Bool.false_ne_true
  | query r =>
    obtain ⟨context, source, -⟩ := resolve_of_entered h
    rw [context, source]
    refine ⟨rfl, rfl, fun h => absurd h Bool.false_ne_true, context ▸ rfl, fun h => ?_⟩
    rw [source] at h
    exact absurd h Bool.false_ne_true

/-- If `opening` refuses a call, `answer` changes nothing but the cache. -/
theorem answer_of_refused {r : Request} (h : l.opening r = .error refusal) :
    l.answer r =
      (⟨.failed refusal.error, {}, r.kind.opening.finish⟩, { l with cache := refusal.cache }) := by
  cases r with
  | deploy r => exact deploy_of_refused h
  | invoke r => exact Call.finish_of_error (bind_of_error (resolve_of_refused h))
  | query r => exact Call.finish_of_error (bind_of_error (resolve_of_refused h))

/-- If `opening` gives an entry, `answer` is `answered`: it runs the entry and does as the
verdict says. -/
theorem answer_of_entered {r : Request} (h : l.opening r = .ok e) :
    l.answer r = l.answered r.kind e := by
  cases r with
  | deploy r => exact deploy_of_entered h
  | invoke r => exact enterDeployed_of_entered h .invoke rfl
  | query r => exact enterDeployed_of_entered h .query rfl

end Ledger

end LedgerScript
