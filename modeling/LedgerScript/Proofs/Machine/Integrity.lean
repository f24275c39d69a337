import LedgerScript.Proofs.Machine.Changes
import LedgerScript.Proofs.Machine.Held
import LedgerScript.Proofs.State.Legal

/-!
# Runs over legal entries

A run over committed state in which scripts' keys hold legal entries writes legal
entries only, so no run ever finds the state corrupted.  That all values of
scripts are sorted goes along with it: what is stored is the canonical text of a
sorted value.  Main statement: `execute_benign`.
-/

namespace LedgerScript

open Script (Program)

variable {σ α β : Type}

/-- A run finds `StateLimits.Legal` entries in the state, and contracts of namespaces that
are `home`; what lies outside stays `fine`. -/
structure Surroundings.Intact (s : Surroundings σ) (home : Namespace → Prop) (fine : σ → Prop) :
    Prop where
  entries : ∀ (key : StateKey) (bytes : List UInt8), s.entries[key]? = some bytes →
    key.reserved = false → s.limits.Legal key bytes
  found : ∀ {id : ContractId} {contract : Contract} {a b : σ}, fine a →
    s.resolve id a = .ok contract b → fine b ∧ home id.space
  lost : ∀ {id : ContractId} {e : ContractError} {a b : σ}, fine a →
    s.resolve id a = .error e b → fine b ∧ e.Benign
  watch : ∀ (event : Event) (vars : Variables) (host : Host) (a : σ), fine a →
    fine (s.watch event vars host a)

/-- All values are `Value.Sorted`. -/
def Regime.sorted : Regime where
  value := Value.Sorted
  act _ _ := True
  fresh := Value.Sorted

/-- What stays true of the `Machine` of a run. -/
structure Machine.Intact (s : Surroundings σ) (home : Namespace → Prop) (fine : σ → Prop)
    (m : Machine σ) : Prop where
  vars : m.vars.All Value.Sorted
  view : m.host.view.Legal s.limits s.entries
  executed : ∀ space ∈ m.host.executed, home space
  outside : fine m.outside

namespace Regime

theorem admits_sorted (p : Program) : sorted.Admits p := fun _ _ => trivial

theorem making_sorted : sorted.Making where
  str _ := trivial
  list h := Value.sorted_list h
  map h := Value.sorted_ofList fun e mem => (h e mem).2
  binary _ _ := Script.BinaryOp.sorted_of_apply
  builtin h := Builtin.sorted_of_apply h

end Regime

/-- The `entryArgs` of a context are sorted if its `args` are. -/
theorem Context.sorted_entryArgs {c : Context} (h : c.args.Sorted) :
    Regime.sorted.Each c.entryArgs := by
  unfold entryArgs
  split
  · exact List.forall_mem_cons.2 ⟨trivial, List.forall_mem_singleton.2 h⟩
  · exact List.forall_mem_singleton.2 h

variable {s : Surroundings σ} {home : Namespace → Prop} {fine : σ → Prop}

namespace Machine.Intact

variable {m next : Machine σ}

theorem withMeter (h : m.Intact s home fine) (meter : Meter) :
    (m.withMeter meter).Intact s home fine :=
  ⟨h.vars, h.view, h.executed, h.outside⟩

theorem withVars (h : m.Intact s home fine) {vars : Variables} (hv : vars.All Value.Sorted) :
    ({ m with vars := vars } : Machine σ).Intact s home fine :=
  ⟨hv, h.view, h.executed, h.outside⟩

theorem withView (h : m.Intact s home fine) {view : View}
    (hv : view.Legal s.limits s.entries) : (m.withView view).Intact s home fine :=
  ⟨h.vars, hv, h.executed, h.outside⟩

theorem withOutside (h : m.Intact s home fine) {outside : σ} (ho : fine outside) :
    (m.withOutside outside).Intact s home fine :=
  ⟨h.vars, h.view, h.executed, ho⟩

theorem notice (hs : s.Intact home fine) (h : m.Intact s home fine) (event : Event) :
    (Exec.notice s event m).Intact s home fine :=
  ⟨h.vars, h.view, h.executed, hs.watch event _ _ _ h.outside⟩

theorem entering (hs : s.Intact home fine) (h : m.Intact s home fine) {child : Context}
    (hc : home child.space) : (m.entering s child).Intact s home fine := by
  let opened : Machine σ := { m with vars := {}, host := m.host.entering child }
  have kept : opened.Intact s home fine := by
    refine ⟨Variables.All.empty, h.view, fun space mem => ?_, h.outside⟩
    rcases Std.ExtTreeSet.mem_insert.1 mem with same | old
    · rw [← Std.compare_eq_iff_eq.1 same]
      exact hc
    · exact h.executed space old
  exact notice hs kept .called

theorem leaving (h : m.Intact s home fine) (hn : next.Intact s home fine) :
    (m.leaving next).Intact s home fine :=
  ⟨h.vars, hn.view, hn.executed, hn.outside⟩

theorem resume (hs : s.Intact home fine) (h : m.Intact s home fine)
    (hn : next.Intact s home fine) (child : Context) (truthy : Bool) :
    (m.resume s child truthy next).Intact s home fine := by
  have back := notice hs (h.leaving hn) (.returned child.contract truthy)
  cases truthy with
  | true => exact back
  | false => exact back.withView (back.view.rollback h.view)

end Machine.Intact

theorem ContractError.Exhausted.benign {e : ContractError} (h : e.Exhausted) : e.Benign := by
  cases e with
  | exhausted => exact trivial
  | _ => exact False.elim h

namespace Exec

/-- A run keeps the machine `Intact`, returns sorted values, and fails with `Benign`
errors. -/
def Keeps (s : Surroundings σ) (home : Namespace → Prop) (fine : σ → Prop) [Holding α]
    (x : Exec σ α) : Prop :=
  ∀ ⦃m : Machine σ⦄, m.Intact s home fine →
    (∃ a next, x m = .ok a next ∧ next.Intact s home fine ∧ Regime.sorted.Each a) ∨
      ∃ e next, x m = .error e next ∧ next.Intact s home fine ∧ e.Benign

namespace Keeps

variable [Holding α] [Holding β] {x : Exec σ α}

theorem pure {a : α} (ha : Regime.sorted.Each a) : Keeps s home fine (pure a : Exec σ α) :=
  fun _ h => .inl ⟨a, _, rfl, h, ha⟩

theorem throw {e : ContractError} (he : e.Benign) : Keeps s home fine (throw e : Exec σ α) :=
  fun _ h => .inr ⟨e, _, rfl, h, he⟩

theorem bind {f : α → Exec σ β} (hx : Keeps s home fine x)
    (hf : ∀ a, Regime.sorted.Each a → Keeps s home fine (f a)) : Keeps s home fine (x >>= f) := by
  intro m h
  rcases hx h with ⟨a, mid, ran, kept, ha⟩ | ⟨e, next, failed, kept, he⟩
  · rcases hf a ha kept with ⟨b, next, ran', done⟩ | ⟨e, next, failed, done⟩
    · exact .inl ⟨b, next, (bind_of_ok ran).trans ran', done⟩
    · exact .inr ⟨e, next, (bind_of_ok ran).trans failed, done⟩
  · exact .inr ⟨e, next, bind_of_error failed, kept, he⟩

theorem charged {x : Metered Unit} (hx : Meter.Charge x) :
    Keeps s home fine (Exec.metered x : Exec σ Unit) := by
  intro m h
  rcases hx.cases m.host.meter with ⟨meter, taken⟩ | ⟨e, meter, failed, exhausted⟩
  · exact .inl ⟨(), _, metered_of_ok taken, h.withMeter meter, trivial⟩
  · exact .inr ⟨e, _, metered_of_error failed, h.withMeter meter, exhausted.benign⟩

theorem modify {f : Machine σ → Machine σ}
    (hf : ∀ m, m.Intact s home fine → (f m).Intact s home fine) :
    Keeps s home fine (modify f : Exec σ PUnit) :=
  fun m h => .inl ⟨⟨⟩, f m, rfl, hf m h, trivial⟩

theorem vars {f : Variables → Variables} (hf : ∀ v, v.All Value.Sorted → (f v).All Value.Sorted) :
    Keeps s home fine (Exec.vars f : Exec σ Unit) :=
  fun _ h => .inl ⟨(), _, rfl, h.withVars (hf _ h.vars), trivial⟩

theorem closing {close : Machine σ → Machine σ} (hx : Keeps s home fine x)
    (hc : ∀ m, m.Intact s home fine → (close m).Intact s home fine) :
    Keeps s home fine (Exec.closing x close) := by
  intro m h
  rcases hx h with ⟨a, next, ran, kept, ha⟩ | ⟨e, next, failed, kept, he⟩
  · exact .inl ⟨a, _, closing_of_ok ran close, hc next kept, ha⟩
  · exact .inr ⟨e, _, closing_of_error failed close, hc next kept, he⟩

theorem lookup (name : String) : Keeps s home fine (Exec.lookup name : Exec σ Slot) := by
  intro m h
  cases found : m.vars.find? name with
  | some slot => exact .inl ⟨slot, m, lookup_of_some found, h, h.vars.find? found⟩
  | none => exact .inr ⟨_, m, lookup_of_none found, h, trivial⟩

theorem change (name : String) {held : Value} {x : Value.Change}
    (sorted : ∀ v, Ends x held v → v.Sorted) :
    Keeps s home fine (Exec.change name held x : Exec σ Unit) := by
  intro m h
  cases changed : x held with
  | ok _ v =>
    have hv := sorted v (.inl ⟨_, changed⟩)
    exact .inl ⟨(), _, change_of_ok changed name, h.withVars (h.vars.update name hv), trivial⟩
  | error f v =>
    have hv := sorted v (.inr ⟨f, changed⟩)
    exact .inr ⟨_, _, change_of_error changed name, h.withVars (h.vars.update name hv), trivial⟩

theorem store (root : String) (keys : List PathKey) {v : Value} (hv : v.Sorted) :
    Keeps s home fine (Evaluator.store root keys v : Exec σ Unit) := by
  refine bind (lookup root) fun slot held => ?_
  split
  · exact .throw trivial
  · refine change root fun after ends => ?_
    rcases ends with ⟨_, written⟩ | ⟨f, failed⟩
    · exact Value.Sorted.writePath hv keys held written
    · rw [Value.writePath_eq_error failed]
      exact held

theorem made {v : Value} (hv : v.Sorted) :
    Keeps s home fine (Exec.chargeNew v >>= fun _ => Pure.pure v : Exec σ Value) := by
  have charged : Keeps s home fine (Exec.chargeNew v : Exec σ Unit) := by
    unfold Exec.chargeNew
    split
    · exact charged (.memory _)
    · exact charged (.memory _)
    · exact charged (.memory _)
    · exact .pure trivial
  exact bind charged fun _ _ => .pure hv

/-! ### Accesses -/

theorem withContext {f : Context → Exec σ α} (hf : ∀ c, Keeps s home fine (f c)) :
    Keeps s home fine (Exec.withContext f) := by
  intro m h
  cases running : m.host.current? with
  | none => exact .inr ⟨_, m, withContext_of_none running f, h, trivial⟩
  | some c =>
    rw [withContext_of_some running f]
    exact hf c h

theorem getState (hs : s.Intact home fine) (key : String) :
    Keeps s home fine (Exec.getState s key) := by
  refine withContext fun c m h => ?_
  rcases Access.get_legal c.space h.view hs.entries key with
    ⟨v, view, got, legal, sorted⟩ | ⟨e, failed, benign⟩
  · exact .inl ⟨v, _, viewing_of_ok got, h.withView legal, sorted⟩
  · exact .inr ⟨e, _, viewing_of_error failed, h.withView h.view, benign⟩

theorem putState (key : String) {v : Value} (hv : v.Sorted) :
    Keeps s home fine (Exec.putState s key v) := by
  refine withContext fun c m h => ?_
  rcases Access.set_legal c.space h.view hv key with ⟨n, view, put, legal⟩ | ⟨e, failed, benign⟩
  · exact .inl ⟨n, _, viewing_of_ok put, h.withView legal, trivial⟩
  · exact .inr ⟨e, _, viewing_of_error failed, h.withView h.view, benign⟩

theorem delState (key : String) : Keeps s home fine (Exec.delState s key) := by
  refine withContext fun c m h => ?_
  rcases Access.delete_legal c.space h.view key with ⟨view, deleted, legal⟩ | ⟨e, failed, benign⟩
  · exact .inl ⟨(), _, viewing_of_ok deleted, h.withView legal, trivial⟩
  · exact .inr ⟨e, _, viewing_of_error failed, h.withView h.view, benign⟩

theorem told (f : String → ContractId → UInt64 → Value)
    (plain : ∀ caller contract height, (f caller contract height).plain = true) :
    Keeps s home fine (Exec.told f : Exec σ Value) := by
  refine withContext fun c => .pure ?_
  have given := plain c.caller c.contract c.height
  generalize f _ _ _ = v at given
  cases v with
  | str t => exact trivial
  | int n => exact trivial
  | _ => cases given

theorem logLine (line : String) : Keeps s home fine (Exec.logLine line : Exec σ Unit) :=
  withContext fun _ _ h => .inl ⟨(), _, rfl, ⟨h.vars, h.view, h.executed, h.outside⟩, trivial⟩

/-! ### Calls -/

theorem callFound (hs : s.Intact home fine) {x : Evaluator σ}
    (hx : ∀ (q : Program) name args, Regime.sorted.Each args →
      Keeps s home fine (x.run q name args))
    {callee : ContractId} {child? : Option Context}
    (hc : ∀ child, child? = some child → child.space = callee.space ∧ child.args.Sorted)
    {m : Machine σ} (h : m.Intact s home fine) :
    (∃ v next, x.callFound s callee child? m = .ok v next ∧ next.Intact s home fine ∧ v.Sorted) ∨
      ∃ e next, x.callFound s callee child? m = .error e next ∧ next.Intact s home fine ∧
        e.Benign := by
  unfold Evaluator.callFound
  cases hr : s.resolve callee m.outside with
  | error e outside =>
    obtain ⟨ok, benign⟩ := hs.lost h.outside hr
    exact .inr ⟨e, _, rfl, h.withOutside ok, benign⟩
  | ok contract outside =>
    obtain ⟨ok, atHome⟩ := hs.found h.outside hr
    have resolved := h.withOutside ok
    dsimp only
    by_cases declared : contract.declares .invoke = true
    · rw [if_pos declared]
      cases child? with
      | none => exact .inr ⟨_, _, rfl, resolved, trivial⟩
      | some child =>
        obtain ⟨space, hargs⟩ := hc child rfl
        rcases hx contract.program EntryPoint.invoke.name child.entryArgs
            (Context.sorted_entryArgs hargs) (resolved.entering hs (space ▸ atHome)) with
          ⟨v, next, ran, kept, sorted⟩ | ⟨e, next, failed, kept, benign⟩
        · exact .inl ⟨v, _, Evaluator.enter_of_ok ran, resolved.resume hs kept child v.truthy,
            sorted⟩
        · exact .inr ⟨e, _, Evaluator.enter_of_error failed, resolved.leaving kept, benign⟩
    · rw [if_neg declared]
      exact .inr ⟨_, _, rfl, resolved, trivial⟩

theorem callContract (hs : s.Intact home fine) {x : Evaluator σ}
    (hx : ∀ (q : Program) name args, Regime.sorted.Each args →
      Keeps s home fine (x.run q name args))
    (target method : String) {args : Value} (hargs : args.Sorted) :
    Keeps s home fine (x.callContract s target method args) := by
  intro m h
  have called := x.callContract_eq s target method args m
  cases hc : ContractId.ofHex target with
  | error f =>
    rw [hc] at called
    exact .inr ⟨_, _, called, h, trivial⟩
  | ok callee =>
    rw [hc] at called
    dsimp only at called
    by_cases again : m.host.contexts.any (·.contract = callee) = true
    · rw [if_pos again] at called
      exact .inr ⟨_, _, called, h, trivial⟩
    · rw [if_neg again] at called
      rw [called]
      refine callFound hs hx (fun child built => ?_) h
      obtain ⟨running, -, rfl⟩ := Option.map_eq_some_iff.1 built
      exact ⟨rfl, hargs⟩

end Keeps

end Exec

/-- Whatever a program does, it `Keeps` the machine intact. -/
theorem parametric_keeps (hs : s.Intact home fine) :
    ParametricOn .sorted s s fun _ _ _ _ x _ => Exec.Keeps s home fine x where
  null := trivial
  bool _ := trivial
  int _ := trivial
  part sorted found := sorted.readPath found
  making := Regime.making_sorted
  pure _ _ _ _ _ ha := .pure ha
  bind hx hf := .bind hx hf
  widen := id
  fault _ _ _ _ := .throw trivial
  missing _ _ := .throw trivial
  ground _ _ _ := .throw trivial
  turns _ _ _ := .throw trivial
  steps _ n := .charged (.steps n)
  made _ _ hv := .made hv
  lookup _ := .lookup
  declareGlobal _ name _ hv := .vars fun _ all => all.declareGlobal name hv
  declare _ name _ hv := .vars fun _ all => all.declare name hv
  store root keys _ hv _ := .store root keys hv
  inScope hx := .bind (.vars fun _ all => all.pushScope) fun _ _ =>
    .closing hx fun _ h => h.withVars h.vars.popScope
  inFrame params args _ _ hargs hx := by
    have scope : Scope.All Value.Sorted (Variables.bindArgs ∅ params args) :=
      Scope.all_empty.bindArgs trivial hargs
    exact .bind (.charged .frame) fun _ _ =>
      .bind (.vars fun _ all => all.pushFrame scope) fun _ _ =>
        .closing hx fun _ h => (h.withMeter _).withVars h.vars.popFrame
  nested hx :=
    .bind (.charged .nesting) fun _ _ =>
      .bind (.modify fun _ h => h.notice hs .entered) fun _ _ =>
        .closing (.bind (.charged (.steps 1)) fun _ _ => hx) fun _ h =>
          (h.withMeter _).notice hs .left
  builtin f _ _ := .modify fun _ h => h.notice hs (.builtin f)
  hosted f _ _ := .modify fun _ h => h.notice hs (.hosted f)
  memory n _ := .charged (.memory n)
  getState key _ := .getState hs key
  putState key _ hv _ := .putState key hv
  delState key _ := .delState key
  told f plain _ := .told f plain
  logLine line _ := .logLine line
  callContract _ _ _ hx target method _ hargs :=
    .callContract hs (fun q => hx (Regime.admits_sorted q)) target method hargs

/-- A run of `execute` that begins with a fresh view leaves `Legal` entries pending, only
in namespaces that are `home`, and fails with `Benign` errors only. -/
theorem execute_benign (hs : s.Intact home fine) (contract : Contract) {context : Context}
    (atHome : home context.space) (sorted : context.args.Sorted) (readOnly : Bool)
    (budget : Budget) (interval : UInt64) {outside : σ} (ho : fine outside) :
    let (outcome, left) :=
      execute s contract context { readOnly := readOnly } budget interval outside
    fine left ∧ (∀ space ∈ outcome.executed, home space) ∧
      (∀ (key : StateKey) (bytes : List UInt8), outcome.view.writes[key]? = some (.put bytes) →
        s.limits.Legal key bytes) ∧
      ∀ e, outcome.result = .error e → e.Benign := by
  let host := Host.new (Meter.new budget interval) { readOnly := readOnly } context
  have begun : (Machine.start host outside).Intact s home fine := by
    refine ⟨Variables.All.empty, ⟨ReadSet.holds_empty _, fun key bytes pending => ?_⟩,
      fun space mem => ?_, ho⟩
    · simp [Machine.start, host, Host.new] at pending
    · have only : compare context.space space = .eq := by
        simpa [Machine.start, host, Host.new, eq_comm] using mem
      rw [← Std.compare_eq_iff_eq.1 only]
      exact atHome
  have run := (parametric_keeps hs).runEntry contract (Regime.admits_sorted _) context
    (Context.sorted_entryArgs sorted) begun
  unfold execute
  dsimp only
  rcases run with ⟨v, next, ran, kept, -⟩ | ⟨e, next, failed, kept, benign⟩
  · rw [Exec.finish_of_ok ran]
    refine ⟨kept.outside, kept.executed, kept.view.writes, fun e failed => ?_⟩
    cases failed
  · rw [Exec.finish_of_error failed]
    refine ⟨kept.outside, kept.executed, kept.view.writes, fun f same => ?_⟩
    cases same
    exact benign

end LedgerScript
