import LedgerScript.Proofs.Machine.Callless
import LedgerScript.Proofs.Machine.ChainReading

/-!
# Compound assignments and what they stand for

An assignment `p += e` stands for `p = p + e`.  It reads its place once `e` has been
evaluated, and the expansion reads it before.  Where `e` leaves in the place what it
found there, as all that calls nothing does (`spares_of_callless`), the two come to the
same (`assign_iff_expansion`); where `e` itself assigns to the place, they do not
(`AddTen.result_ne`).
-/

namespace LedgerScript

open Script (Program Expr Stmt Place AssignOp BinaryOp)

variable {σ : Type}

/-- The operator with which a compound assignment does `combine`. -/
def Script.AssignOp.operator? : AssignOp → Option BinaryOp
  | .set => none
  | .add => some .add
  | .sub => some .sub

/-- What a path into a variable leads to, by `Value.readPath`. -/
def Variables.held (v : Variables) (root : String) (keys : List PathKey) :
    Except ScriptFault Value :=
  match v.find? root with
  | none => .error (.undefinedVariable root)
  | some slot => (slot.value.readPath keys).map Prod.fst

namespace Evaluator

/-- Once the keys of a place are evaluated, evaluating `e` leaves in it what it finds
there, however the meter stands. -/
def Spares (x : Evaluator σ) (p : Program) (target : Place) (e : Expr) (m : Machine σ) : Prop :=
  ∀ start keys mid rhs next, m.Recharged start →
    x.evalKeys p target.path start = .ok keys mid → x.eval p e mid = .ok rhs next →
      next.vars.held target.root keys = mid.vars.held target.root keys

/-! ## Reading a place -/

section Reading

variable {m n : Machine σ}

/-- Apart from charges, `readAt` gives what the place `held`. -/
theorem agreed_readAt (same : m.Recharged n) (root : String) (keys : List PathKey) :
    Agreed (readAt root keys m) (Exec.compute (n.vars.held root keys) n) := by
  rw [same.vars]
  unfold readAt Variables.held
  cases found : m.vars.find? root with
  | none =>
    rw [bind_of_error (Exec.lookup_of_none found)]
    exact .failed
  | some slot =>
    rw [bind_of_ok (Exec.lookup_of_some found)]
    dsimp only [readInto]
    cases slot.value.readPath keys with
    | error f => exact .failed
    | ok found =>
      exact .charged (Exec.charges_chargeCopy found.1 found.2) fun next charged =>
        .ok (charged.symm.trans same)

/-- `combine` works on what `readAt` gives. -/
theorem combine_eq (op : BinaryOp) (root : String) (keys : List PathKey) (rhs : Value) :
    (combine op root keys rhs : Exec σ Value) =
      readAt root keys >>= fun current => Exec.compute (op.apply current rhs) >>= fun v =>
        Exec.chargeNew v >>= fun _ => pure v :=
  (bind_assoc ..).symm

/-- `assignAt` for a compound assignment does `store` what `combine` makes of the place
and the right-hand side. -/
theorem assignAt_of_operator? (below : Evaluator σ) (p : Program) {assignment : AssignOp}
    {op : BinaryOp} (compound : assignment.operator? = some op) (root : String)
    (keys : List PathKey) (value : Expr) :
    below.assignAt p root keys assignment value =
      below.eval p value >>= combine op root keys >>= store root keys := by
  rw [bind_assoc]
  cases assignment <;> cases compound <;> rfl

/-- `combine` fails where `held` does. -/
theorem combine_fails {x : Exec σ Value} {root : String} {keys : List PathKey} {f : ScriptFault}
    (op : BinaryOp) (unreadable : m.vars.held root keys = .error f)
    (kept : ∀ rhs next, x m = .ok rhs next →
      next.vars.held root keys = m.vars.held root keys) :
    ∃ e next, (x >>= combine op root keys) m = .error e next := by
  cases ran : x m with
  | error e next => exact ⟨e, next, bind_of_error ran⟩
  | ok rhs next =>
    have read := agreed_readAt (.refl next) root keys
    rw [kept rhs next ran, unreadable] at read
    obtain ⟨e, last, unread⟩ := read.exists_error
    refine ⟨e, last, ?_⟩
    rw [bind_of_ok ran, combine_eq, bind_of_error unread]

theorem evalBody_of_place? (s : Surroundings σ) (below : Evaluator σ) (p : Program) {e : Expr}
    {target : Place} (place : e.place? = some target) :
    below.evalBody s p e = below.evalKeys p target.path >>= readAt target.root := by
  have chain := e.chain_of_place? place []
  rw [List.append_nil] at chain
  have read : below.readChain p (e.chain []).1 (e.chain []).2 =
      below.evalKeys p target.path >>= readAt target.root := by
    rw [chain]
    rfl
  cases e with
  | ident name =>
    cases place
    rfl
  | member base name => exact read
  | index base key => exact read
  | _ => cases place

end Reading

section Agreement

variable {entries : Committed} {limits : StateLimits}
  {resolve : ContractId → EStateM ContractError σ Contract} {p : Program} {target : Place}
  {m n o : Machine σ}

/-- `evalKeys` gives the same again where the keys have no calls. -/
theorem agreed_evalKeys_again (level level' : Nat) {keys : List PathKey}
    (callless : Regime.callless.Allows p (target.path.flatMap Script.Accessor.acts))
    (evaluated : (ofLevels (.unwatched entries limits resolve) level).evalKeys p target.path m =
      .ok keys n) (same : n.Recharged o) :
    Agreed ((ofLevels (.unwatched entries limits resolve) level').evalKeys p target.path o)
      (.ok keys n) := by
  have quiet := quiet_evalKeys level p target.path callless evaluated
  have again := (couples_recharged entries limits resolve).parametric.lax.evalKeys
    ((alike_ofLevels entries limits resolve level level').eval (Regime.admits_lax p)) target.path
    (fun _ _ => trivial) (quiet.trans same)
  rw [evaluated] at again
  exact again.agreed.symm

/-- What calls nothing `Spares` every place. -/
theorem spares_of_callless (level : Nat) {e : Expr}
    (callless : Regime.callless.Allows p e.acts) :
    Spares (ofLevels (.unwatched entries limits resolve) level) p target e m := by
  intro start keys mid rhs next _ _ ran
  rw [(quiet_eval level p e callless ran).vars]

/-- One run that has enough of everything tells whether an expression `Spares` a place. -/
theorem spares_of_run (level level' : Nat) {e : Expr} {keys : List PathKey} {rhs : Value}
    (evaluated : (ofLevels (.unwatched entries limits resolve) level').evalKeys p target.path m =
      .ok keys n)
    (ran : (ofLevels (.unwatched entries limits resolve) level').eval p e n = .ok rhs o)
    (kept : o.vars.held target.root keys = n.vars.held target.root keys) :
    Spares (ofLevels (.unwatched entries limits resolve) level) p target e m := by
  have alike := alike_ofLevels entries limits resolve level' level
  intro start keys' mid rhs' next same evaluated' ran'
  have first := (couples_recharged entries limits resolve).parametric.lax.evalKeys
    (alike.eval (Regime.admits_lax p)) target.path (fun _ _ => trivial) same
  rw [evaluated, evaluated'] at first
  cases first with | ok mids =>
  have second := alike.eval (Regime.admits_lax p) e (fun _ _ => trivial) mids
  rw [ran, ran'] at second
  cases second with | ok lasts =>
  rw [mids.vars, lasts.vars, kept]

/-- Once `evalKeys` has given the keys of a place, the expression that names it finds what
is `held` there. -/
theorem agreed_place (level level' : Nat) {e : Expr} (place : e.place? = some target)
    {keys : List PathKey}
    (callless : Regime.callless.Allows p (target.path.flatMap Script.Accessor.acts))
    (evaluated : (ofLevels (.unwatched entries limits resolve) level).evalKeys p target.path m =
      .ok keys n) (same : n.Recharged o) :
    Agreed ((ofLevels (.unwatched entries limits resolve) level').eval p e o)
      (Exec.compute (n.vars.held target.root keys) n) := by
  cases level' with
  | zero => exact .left trivial
  | succ level' =>
    refine .nested fun inner opened => ?_
    rw [evalBody_of_place? _ _ p place]
    have again := agreed_evalKeys_again _ level' callless evaluated (same.trans opened)
    exact again.after fun next same => agreed_readAt same target.root keys

theorem agreed_combine (level level' : Nat) (op : BinaryOp) {left e : Expr}
    (place : left.place? = some target) {keys : List PathKey}
    (callless : Regime.callless.Allows p (target.path.flatMap Script.Accessor.acts))
    (evaluated : (ofLevels (.unwatched entries limits resolve) level').evalKeys p target.path m =
      .ok keys n) (same : n.Recharged o)
    (kept : ∀ rhs next,
      (ofLevels (.unwatched entries limits resolve) level').eval p e n = .ok rhs next →
        next.vars.held target.root keys = n.vars.held target.root keys) :
    Agreed ((ofLevels (.unwatched entries limits resolve) level).eval p (.binary op left e) o)
      (((ofLevels (.unwatched entries limits resolve) level').eval p e >>=
        combine op target.root keys) n) := by
  have parametric := (couples_recharged entries limits resolve).parametric.lax
  cases level with
  | zero => exact .left trivial
  | succ level =>
    refine .nested fun inner opened => ?_
    have first := agreed_place level' level place callless evaluated (same.trans opened)
    -- What the place holds is read first on one side and last on the other.
    cases held : n.vars.held target.root keys with
    | error f =>
      rw [held] at first
      obtain ⟨_, _, failed⟩ := first.exists_error
      obtain ⟨_, _, failed'⟩ := combine_fails op held kept
      rw [failed', evalBody, bind_of_error failed]
      exact .failed
    | ok current =>
      rw [held] at first
      apply first.after
      intro next again
      apply Agreed.bind ((alike_ofLevels entries limits resolve level level').agreed p e again)
      intro rhs m' n' _ ran same
      have read := agreed_readAt same.symm target.root keys
      rw [← same.vars, kept rhs n' ran, held] at read
      rw [combine_eq]
      refine (read.after ?_).symm
      intro next' again
      exact (parametric.computeNew (p := p) _ (fun _ _ => trivial) again).agreed

theorem agreed_assign (level level' : Nat) {assignment : AssignOp} {op : BinaryOp}
    (compound : assignment.operator? = some op) {left e : Expr}
    (place : left.place? = some target)
    (callless : Regime.callless.Allows p (target.path.flatMap Script.Accessor.acts))
    (same : m.Recharged n)
    (kept : ∀ keys mid rhs next,
      (ofLevels (.unwatched entries limits resolve) level').evalKeys p target.path n =
          .ok keys mid →
        (ofLevels (.unwatched entries limits resolve) level').eval p e mid = .ok rhs next →
          next.vars.held target.root keys = mid.vars.held target.root keys) :
    Agreed ((ofLevels (.unwatched entries limits resolve) level).assign p target .set
        (.binary op left e) m)
      ((ofLevels (.unwatched entries limits resolve) level').assign p target assignment e n) := by
  have coupling := couples_recharged entries limits resolve
  have alike := alike_ofLevels entries limits resolve level level'
  have first := coupling.parametric.lax.evalKeys (alike.eval (Regime.admits_lax p)) target.path
    (fun _ _ => trivial) same
  rw [assign_eq, assign_eq]
  apply first.agreed.bind
  intro keys m' n' _ evaluated same
  rw [assignAt_of_operator? _ p compound]
  have computed := agreed_combine level level' op place callless evaluated same.symm
    fun rhs next => kept keys n' rhs next evaluated
  apply computed.bind
  intro v _ _ _ _ same
  exact (coupling.coupled_store target.root keys v same).agreed

end Agreement

/-- **What a compound assignment stands for.**  Where `e` leaves in the place of
`p += e` what it finds there, and the keys of the place call nothing, the assignment
ends just as `p = p + e` does, with the same variables, the same host and the same
outside but for what has been charged, as long as neither uses anything up. -/
theorem assign_iff_expansion (entries : Committed) (limits : StateLimits)
    (resolve : ContractId → EStateM ContractError σ Contract) (level : Nat) (p : Program)
    {assignment : AssignOp} {op : BinaryOp} (compound : assignment.operator? = some op)
    {left e : Expr} {target : Place} (place : left.place? = some target)
    (callless : Regime.callless.Allows p (target.path.flatMap Script.Accessor.acts))
    (m : Machine σ)
    (kept : Spares (ofLevels (.unwatched entries limits resolve) level) p target e m) :
    let s : Surroundings σ := .unwatched entries limits resolve
    let expanded := ((ofLevels s (level + 1)).exec p
      (.assign target .set (.binary op left e))).finish m
    let assigned := ((ofLevels s (level + 1)).exec p (.assign target assignment e)).finish m
    (∀ err, expanded.1 = .error err → ¬ err.Exhausted) →
      (∀ err, assigned.1 = .error err → ¬ err.Exhausted) →
        (∀ flow, expanded.1 = .ok flow ↔ assigned.1 = .ok flow) ∧
          ∀ flow, expanded.1 = .ok flow → expanded.2.Recharged assigned.2 := by
  apply Agreed.finish
  -- Both statements open a level; what they charge for it may differ.
  refine .nested fun start opened => .symm (.nested fun start' opened' => .symm ?_)
  have assigns := agreed_assign level level compound place callless (opened.symm.trans opened')
    fun keys mid rhs next => kept start' keys mid rhs next opened'
  exact assigns.bind fun _ _ _ _ _ same => .ok same

end Evaluator

/-! ## An example -/

namespace AddTen

/-- Sets `x` to ten and gives one. -/
def ten : Script.Function where
  name := "ten"
  params := []
  body := [.assign ⟨"x", []⟩ .set (.int 10), .result (some (.int 1))]

def program : Program := { functions := Std.ExtTreeMap.ofList [(ten.name, ten)] }

def globals : Scope :=
  ((∅ : Scope).insert "x" ⟨.int 1, false⟩).insert "y" ⟨.list [.int 1, .int 2], false⟩

def machine : Machine Unit where
  vars := { globals := globals }
  host := .new (.new {} 1) {} (.forInvoke (Contract.specimen 0 []).id "" "m" .null 0)
  outside := ()

def evaluator (level : Nat) : Evaluator Unit := .ofLevels .bare level

/-- Assigns `left + ten()`. -/
def expanded (left : Expr) (target : Place) : Except ContractError Flow × Machine Unit :=
  ((evaluator 9).exec program
    (.assign target .set (.binary .add left (.call "ten" [])))).finish machine

/-- Adds `ten()` in place. -/
def assigned (target : Place) : Except ContractError Flow × Machine Unit :=
  ((evaluator 9).exec program (.assign target .add (.call "ten" []))).finish machine

/-- The first item of `y`. -/
def first : Place := ⟨"y", [.index (.int 0)]⟩

/-- Neither way to add to an item of `y` feels that `x` changes meanwhile. -/
theorem first_assigned :
    (expanded (.index (.ident "y") (.int 0)) first).1 = .ok .onward ∧
      (assigned first).1 = .ok .onward ∧
      (expanded (.index (.ident "y") (.int 0)) first).2.Recharged (assigned first).2 ∧
      (assigned first).2.vars.held "y" [] = .ok (.list [.int 2, .int 2]) ∧
      (assigned first).2.vars.held "x" [] = .ok (.int 10) := by
  have spares : Evaluator.Spares (evaluator 8) program first (.call "ten" []) machine := by
    refine Evaluator.spares_of_run 8 8
      (Exec.eq_ok_of_finish (a := [.value (.int 0)]) (eq_ok_of_toOption (by decide +kernel)))
      (Exec.eq_ok_of_finish (a := .int 1) (eq_ok_of_toOption (by decide +kernel))) ?_
    exact (eq_ok_of_toOption (a := .int 1) (by decide +kernel)).trans
      (eq_ok_of_toOption (by decide +kernel)).symm
  have done : (expanded (.index (.ident "y") (.int 0)) first).1 = .ok .onward :=
    eq_ok_of_toOption (by decide +kernel)
  have done' : (assigned first).1 = .ok .onward := eq_ok_of_toOption (by decide +kernel)
  have place : (Expr.index (.ident "y") (.int 0)).place? = some first := rfl
  have callless : Regime.callless.Allows program (first.path.flatMap Script.Accessor.acts) :=
    List.forall_mem_nil _
  obtain ⟨-, same⟩ := Evaluator.assign_iff_expansion ∅ {} _ 8 program rfl place callless
    machine spares (fun _ failed => nomatch done.symm.trans failed)
    (fun _ failed => nomatch done'.symm.trans failed)
  exact ⟨done, done', same _ done, eq_ok_of_toOption (by decide +kernel),
    eq_ok_of_toOption (by decide +kernel)⟩

/-- `x = x + ten()` sets `x` to two, and `x += ten()` to eleven. -/
theorem result_ne :
    (expanded (.ident "x") ⟨"x", []⟩).1 = .ok .onward ∧
      (assigned ⟨"x", []⟩).1 = .ok .onward ∧
      (expanded (.ident "x") ⟨"x", []⟩).2.vars.held "x" [] = .ok (.int 2) ∧
      (assigned ⟨"x", []⟩).2.vars.held "x" [] = .ok (.int 11) :=
  ⟨eq_ok_of_toOption (by decide +kernel), eq_ok_of_toOption (by decide +kernel),
    eq_ok_of_toOption (by decide +kernel), eq_ok_of_toOption (by decide +kernel)⟩

end AddTen

end LedgerScript
