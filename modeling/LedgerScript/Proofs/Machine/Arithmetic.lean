import LedgerScript.Proofs.Machine.CompoundAssignment

/-!
# Arithmetic is exact or fails

What `+`, `-`, `*`, `/` and `%` make of two integers without bounds
(`Script.BinaryOp.Makes`), division being told by its rest (`Division`).  Between
operands of 64 bits an operator gives that integer if 64 bits hold it, and a fault
otherwise, wherever a program uses it: `Evaluator.arithmetic_exact`.
-/

namespace LedgerScript

open Script (Program Expr Place AssignOp BinaryOp)

variable {σ α : Type}

/-! ## Division with a rest -/

/-- `a` is `q` times `b` and the rest `r`.  The rest is on the side of zero where `a` is, so
`q` is the quotient without its fraction. -/
structure Division (a b q r : Int) : Prop where
  whole : a = q * b + r
  small : r.natAbs < b.natAbs
  nonneg : 0 ≤ a → 0 ≤ r
  nonpos : a ≤ 0 → r ≤ 0

theorem division_iff {a b q r : Int} :
    Division a b q r ↔ b ≠ 0 ∧ q = a.tdiv b ∧ r = a.tmod b := by
  constructor
  · rintro ⟨whole, small, nonneg, nonpos⟩
    have nonzero : b ≠ 0 := by omega
    have summed : r + b * q = a := by rw [whole, Int.mul_comm, Int.add_comm]
    refine ⟨nonzero, ?_⟩
    rcases Int.le_total 0 a with above | below
    · have positive := nonneg above
      obtain ⟨rfl, rfl⟩ := (Int.tdiv_tmod_unique above nonzero).2 ⟨summed, positive, by omega⟩
      exact ⟨rfl, rfl⟩
    · have negative := nonpos below
      obtain ⟨rfl, rfl⟩ := (Int.tdiv_tmod_unique' below nonzero).2 ⟨summed, by omega, negative⟩
      exact ⟨rfl, rfl⟩
  · rintro ⟨nonzero, rfl, rfl⟩
    constructor
    · rw [Int.mul_comm, Int.mul_tdiv_add_tmod]
    · rw [Int.natAbs_tmod]
      exact Nat.mod_lt _ (by omega)
    · exact Int.tmod_nonneg b
    · intro below
      have turned := Int.tmod_nonneg b (Int.neg_nonneg_of_nonpos below)
      rw [Int.neg_tmod] at turned
      omega

/-- The rest of a `Division` is between zero and what is divided. -/
theorem Division.between {a b q r : Int} (h : Division a b q r) :
    0 ≤ r ∧ r ≤ a ∨ a ≤ r ∧ r ≤ 0 := by
  obtain ⟨-, -, rfl⟩ := division_iff.1 h
  have fewer : (a.tmod b).natAbs ≤ a.natAbs := by
    rw [Int.natAbs_tmod]
    exact Nat.mod_le _ _
  have nonneg := h.nonneg
  have nonpos := h.nonpos
  omega

/-- An `Int64` holds all that lies between zero and an integer of 64 bits. -/
theorem exists_of_between {a : Int64} {n : Int} (h : 0 ≤ n ∧ n ≤ a.toInt ∨ a.toInt ≤ n ∧ n ≤ 0) :
    ∃ x : Int64, x.toInt = n := by
  have least := a.le_toInt
  have most := a.toInt_lt
  exact ⟨Int64.ofInt n, Int64.toInt_ofInt_of_le (by omega) (by omega)⟩

/-! ## Operators -/

/-- The integer `n` that an operator makes of two integers without bounds; where the
quotient is not of 64 bits, there is no rest either. -/
def Script.BinaryOp.Makes : BinaryOp → (a b n : Int) → Prop
  | .add, a, b, n => n = a + b
  | .sub, a, b, n => n = a - b
  | .mul, a, b, n => n = a * b
  | .div, a, b, n => ∃ r, Division a b n r
  | .rem, a, b, n => ∃ q : Int64, Division a b q.toInt n
  | _, _, _, _ => False

/-- An operator of arithmetic. -/
def Script.BinaryOp.IsArithmetic (op : BinaryOp) : Prop :=
  op ∈ [.add, .sub, .mul, .div, .rem]

/-- The integer of which `made` holds, if it is one of 64 bits, and a fault otherwise. -/
structure ExactOrFault (made : Int → Prop) (x : Except ScriptFault Value) : Prop where
  exact : ∀ n : Int64, made n.toInt → x = .ok (.int n)
  fault : (∀ n : Int64, ¬ made n.toInt) → x = .error .integerOverflow ∨ x = .error .divisionByZero

section Operators

variable {a b : Int64} {made : Int → Prop}

theorem exactOrFault_exact {n : Int} (only : ∀ m, made m ↔ m = n) :
    ExactOrFault made (exact n) where
  exact m h := exact_eq_ok_iff.2 ⟨m, rfl, (only _).1 h⟩
  fault none := by
    unfold LedgerScript.exact
    split
    · next fits =>
      have back : (Int64.ofInt n).toInt = n := Int64.toInt_ofInt_of_le fits.1 fits.2
      exact absurd ((only _).2 back) (none _)
    · exact .inl rfl

theorem exactOrFault_quotient :
    ExactOrFault (fun n => ∃ r, Division a.toInt b.toInt n r) (quotient a b) := by
  unfold quotient
  split
  · next zero =>
    refine ⟨?_, fun _ => .inr rfl⟩
    rintro n ⟨r, divided⟩
    exact absurd (congrArg Int64.toInt zero) (division_iff.1 divided).1
  · next nonzero =>
    refine exactOrFault_exact fun n => ⟨?_, ?_⟩
    · rintro ⟨r, divided⟩
      exact (division_iff.1 divided).2.1
    · rintro rfl
      exact ⟨_, division_iff.2 ⟨fun zero => nonzero (Int64.toInt_inj.1 zero), rfl, rfl⟩⟩

theorem exactOrFault_remainder :
    ExactOrFault (fun n => ∃ q : Int64, Division a.toInt b.toInt q.toInt n) (remainder a b) := by
  have divides := exactOrFault_quotient (a := a) (b := b)
  unfold remainder
  constructor
  · rintro n ⟨q, divided⟩
    rw [divides.exact q ⟨_, divided⟩]
    exact exact_eq_ok_iff.2 ⟨n, rfl, (division_iff.1 divided).2.2⟩
  · intro none
    have wide : ∀ q : Int64, ¬ ∃ r, Division a.toInt b.toInt q.toInt r := by
      rintro q ⟨r, divided⟩
      obtain ⟨x, rfl⟩ := exists_of_between divided.between
      exact none x ⟨q, divided⟩
    rcases divides.fault wide with failed | failed
    · rw [failed]
      exact .inl rfl
    · rw [failed]
      exact .inr rfl

theorem exactOrFault_apply {op : BinaryOp} (arithmetic : op.IsArithmetic) :
    ExactOrFault (op.Makes a.toInt b.toInt) (op.apply (.int a) (.int b)) := by
  cases op with
  | add => exact exactOrFault_exact fun _ => Iff.rfl
  | sub => exact exactOrFault_exact fun _ => Iff.rfl
  | mul => exact exactOrFault_exact fun _ => Iff.rfl
  | div => exact exactOrFault_quotient
  | rem => exact exactOrFault_remainder
  | _ => exact absurd arithmetic (by unfold BinaryOp.IsArithmetic; decide)

/-- What `apply` gives of two integers is the integer that the operator `Makes` of them. -/
theorem makes_of_apply {op : BinaryOp} (arithmetic : op.IsArithmetic) {v : Value}
    (applied : op.apply (.int a) (.int b) = .ok v) :
    ∃ n, v = .int n ∧ op.Makes a.toInt b.toInt n.toInt := by
  have outcome := exactOrFault_apply (a := a) (b := b) arithmetic
  by_cases held : ∃ n : Int64, op.Makes a.toInt b.toInt n.toInt
  · obtain ⟨n, made⟩ := held
    cases (outcome.exact n made).symm.trans applied
    exact ⟨n, rfl, made⟩
  · rcases outcome.fault fun n made => held ⟨n, made⟩ with failed | failed <;>
      cases failed.symm.trans applied

/-- `div` gives a quotient of the operands of which `rem` gives a rest, and from the two
what was divided comes again. -/
theorem division_again :
    ((∃ q, BinaryOp.div.apply (.int a) (.int b) = .ok q) ↔
      ∃ r, BinaryOp.rem.apply (.int a) (.int b) = .ok r) ∧
    ∀ q r, BinaryOp.div.apply (.int a) (.int b) = .ok q →
      BinaryOp.rem.apply (.int a) (.int b) = .ok r →
        ∃ whole, BinaryOp.mul.apply q (.int b) = .ok whole ∧
          BinaryOp.add.apply whole r = .ok (.int a) := by
  have divides : BinaryOp.div.IsArithmetic := by simp [BinaryOp.IsArithmetic]
  have leaves : BinaryOp.rem.IsArithmetic := by simp [BinaryOp.IsArithmetic]
  refine ⟨⟨?_, ?_⟩, ?_⟩
  · rintro ⟨v, applied⟩
    obtain ⟨q, -, r, divided⟩ := makes_of_apply divides applied
    obtain ⟨x, rfl⟩ := exists_of_between divided.between
    exact ⟨_, exactOrFault_remainder.exact x ⟨q, divided⟩⟩
  · rintro ⟨v, applied⟩
    obtain ⟨r, -, q, divided⟩ := makes_of_apply leaves applied
    exact ⟨_, exactOrFault_quotient.exact q ⟨_, divided⟩⟩
  · intro v w applied applied'
    obtain ⟨q, rfl, rest, divided⟩ := makes_of_apply divides applied
    obtain ⟨r, rfl, q', divided'⟩ := makes_of_apply leaves applied'
    obtain ⟨-, quotient, rfl⟩ := division_iff.1 divided
    obtain ⟨-, -, remainder⟩ := division_iff.1 divided'
    rw [← remainder] at divided
    have between := divided.between
    have sum := divided.whole
    obtain ⟨product, held⟩ : ∃ x : Int64, x.toInt = q.toInt * b.toInt :=
      exists_of_between (a := a) (by omega)
    refine ⟨.int product, exact_eq_ok_iff.2 ⟨product, rfl, held⟩, ?_⟩
    exact exact_eq_ok_iff.2 ⟨a, rfl, by rw [held]; exact sum⟩

end Operators

/-! ## Programs -/

namespace Evaluator

/-- With the integer of which `made` holds, if it is one of 64 bits, a run goes on in `m` as
`next` tells; otherwise it ends there with a fault of the script. -/
structure Reckons (made : Int → Prop) (next : Value → Exec σ α) (m : Machine σ)
    (ran : EStateM.Result ContractError (Machine σ) α) : Prop where
  exact : ∀ n : Int64, made n.toInt → ran = next (.int n) m
  fault : (∀ n : Int64, ¬ made n.toInt) →
    ran = .error (.script .integerOverflow) m ∨ ran = .error (.script .divisionByZero) m

theorem reckons_compute {made : Int → Prop} {x : Except ScriptFault Value}
    (outcome : ExactOrFault made x) {f next : Value → Exec σ α} {m : Machine σ}
    (goes : ∀ n : Int64, f (.int n) m = next (.int n) m) :
    Reckons made next m ((Exec.compute x >>= f) m) where
  exact n h := by
    rw [outcome.exact n h]
    exact goes n
  fault none := by
    rcases outcome.fault none with failed | failed
    · rw [failed]
      exact .inl rfl
    · rw [failed]
      exact .inr rfl

section

variable (s : Surroundings σ) (below : Evaluator σ) (p : Program)

theorem evalBody_binary (op : BinaryOp) (left right : Expr) :
    below.evalBody s p (.binary op left right) =
      below.eval p left >>= fun a => below.eval p right >>= fun b =>
        Exec.compute (op.apply a b) >>= fun v => Exec.chargeNew v >>= fun _ => pure v :=
  rfl

theorem evalBody_unary (op : Script.UnaryOp) (operand : Expr) :
    below.evalBody s p (.unary op operand) =
      below.eval p operand >>= fun a => Exec.compute (op.apply a) >>= pure := by
  simp only [bind_pure]
  rfl

variable {below p} {m m₁ m₂ m₃ : Machine σ} {a b : Int64}

theorem reckons_binary {op : BinaryOp} {left right : Expr} (arithmetic : op.IsArithmetic)
    (first : below.eval p left m = .ok (.int a) m₁)
    (second : below.eval p right m₁ = .ok (.int b) m₂) :
    Reckons (op.Makes a.toInt b.toInt) pure m₂
      (below.evalBody s p (.binary op left right) m) := by
  rw [evalBody_binary, bind_of_ok first, bind_of_ok second]
  exact reckons_compute (exactOrFault_apply arithmetic) fun _ => rfl

theorem reckons_unary {operand : Expr} (evaluated : below.eval p operand m = .ok (.int a) m₁) :
    Reckons (· = -a.toInt) pure m₁ (below.evalBody s p (.unary .neg operand) m) := by
  rw [evalBody_unary, bind_of_ok evaluated]
  exact reckons_compute (exactOrFault_exact fun _ => Iff.rfl) fun _ => rfl

theorem reckons_assign {assignment : AssignOp} {op : BinaryOp} {target : Place} {value : Expr}
    {keys : List PathKey} (compound : assignment.operator? = some op)
    (evaluated : below.evalKeys p target.path m = .ok keys m₁)
    (second : below.eval p value m₁ = .ok (.int b) m₂)
    (first : readAt target.root keys m₂ = .ok (.int a) m₃) :
    Reckons (op.Makes a.toInt b.toInt) (store target.root keys) m₃
      (below.assign p target assignment value m) := by
  have arithmetic : op.IsArithmetic := by
    cases assignment <;> cases compound <;> simp [BinaryOp.IsArithmetic]
  rw [assign_eq, bind_of_ok evaluated, assignAt_of_operator? _ p compound, bind_assoc,
    bind_of_ok second, combine_eq, bind_assoc, bind_of_ok first, bind_assoc]
  exact reckons_compute (exactOrFault_apply arithmetic) fun _ => rfl

end

/-- **Arithmetic is exact or fails.**  Once its operands are integers, an operator between
two expressions goes on with the integer that it `Makes` of them, if an `Int64` holds
that, and is a `ScriptFault` otherwise; so does a compound assignment with what its place
holds and its right-hand side, before it does `store`, and so does a sign before an
expression.  Quotient and rest are had together, and give again what was divided. -/
theorem arithmetic_exact (s : Surroundings σ) (below : Evaluator σ) (p : Program)
    (m : Machine σ) :
    (∀ {op : BinaryOp} {left right : Expr} {a b : Int64} {m₁ m₂ : Machine σ}, op.IsArithmetic →
      below.eval p left m = .ok (.int a) m₁ → below.eval p right m₁ = .ok (.int b) m₂ →
        Reckons (op.Makes a.toInt b.toInt) pure m₂
          (below.evalBody s p (.binary op left right) m)) ∧
    (∀ {assignment : AssignOp} {op : BinaryOp} {target : Place} {value : Expr}
      {keys : List PathKey} {a b : Int64} {m₁ m₂ m₃ : Machine σ},
      assignment.operator? = some op → below.evalKeys p target.path m = .ok keys m₁ →
        below.eval p value m₁ = .ok (.int b) m₂ → readAt target.root keys m₂ = .ok (.int a) m₃ →
          Reckons (op.Makes a.toInt b.toInt) (store target.root keys) m₃
            (below.assign p target assignment value m)) ∧
    (∀ {operand : Expr} {a : Int64} {m₁ : Machine σ}, below.eval p operand m = .ok (.int a) m₁ →
      Reckons (· = -a.toInt) pure m₁ (below.evalBody s p (.unary .neg operand) m)) ∧
    ∀ a b : Int64,
      ((∃ q, BinaryOp.div.apply (.int a) (.int b) = .ok q) ↔
        ∃ r, BinaryOp.rem.apply (.int a) (.int b) = .ok r) ∧
      ∀ q r, BinaryOp.div.apply (.int a) (.int b) = .ok q →
        BinaryOp.rem.apply (.int a) (.int b) = .ok r →
          ∃ whole, BinaryOp.mul.apply q (.int b) = .ok whole ∧
            BinaryOp.add.apply whole r = .ok (.int a) :=
  ⟨reckons_binary s, reckons_assign, reckons_unary s, fun _ _ => division_again⟩

end Evaluator

/-! ## An example -/

namespace Int64Limits

/-- A variable that is one below zero. -/
def machine : Machine Unit where
  vars := { globals := (∅ : Scope).insert "x" ⟨.int (-1), false⟩ }
  host := .new (.new {} 1) {} (.forInvoke (Contract.specimen 0 []).id "" "m" .null 0)
  outside := ()

def evaluator : Evaluator Unit := .ofLevels .bare 3

/-- The least `Int64`. -/
def least : Int64 := -9223372036854775808

/-- The machine that a run leaves. -/
def passed (x : Exec Unit Value) (m : Machine Unit) : Machine Unit := (x.finish m).2

theorem eval_int (n : Int64) (m : Machine Unit)
    (opened : ((evaluator.eval {} (.int n)).finish m).1.toOption = some (.int n)) :
    evaluator.eval {} (.int n) m = .ok (.int n) (passed (evaluator.eval {} (.int n)) m) :=
  Exec.eq_ok_of_finish (eq_ok_of_toOption opened)

/-- Seven below zero divided by two goes toward zero; the least integer has neither a
quotient by minus one nor an opposite; but from minus one it can be taken away. -/
theorem extremes_exact :
    (∃ next, evaluator.evalBody .bare {} (.binary .div (.int (-7)) (.int 2)) machine =
      .ok (.int (-3)) next) ∧
    (∃ next, evaluator.evalBody .bare {} (.binary .rem (.int least) (.int (-1))) machine =
        .error (.script .integerOverflow) next ∨
      evaluator.evalBody .bare {} (.binary .rem (.int least) (.int (-1))) machine =
        .error (.script .divisionByZero) next) ∧
    (∃ next, evaluator.assign {} ⟨"x", []⟩ .sub (.int least) machine =
      Evaluator.store "x" [] (.int 9223372036854775807) next) ∧
    (∃ next, evaluator.evalBody .bare {} (.unary .neg (.int least)) machine =
        .error (.script .integerOverflow) next ∨
      evaluator.evalBody .bare {} (.unary .neg (.int least)) machine =
        .error (.script .divisionByZero) next) ∧
    ∃ whole, BinaryOp.mul.apply (.int (-3)) (.int 2) = .ok whole ∧
      BinaryOp.add.apply whole (.int (-1)) = .ok (.int (-7)) := by
  obtain ⟨binary, compound, negated, divided⟩ :=
    Evaluator.arithmetic_exact .bare evaluator {} machine
  have value : least.toInt = -9223372036854775808 := by decide
  refine ⟨?_, ?_, ?_, ?_, ?_⟩
  · have division : Division (-7) 2 (-3) (-1) := by constructor <;> decide
    exact ⟨_, (binary (by simp [BinaryOp.IsArithmetic]) (eval_int (-7) _ (by decide +kernel))
      (eval_int 2 _ (by decide +kernel))).exact (-3) ⟨-1, division⟩⟩
  · refine ⟨_, (binary (by simp [BinaryOp.IsArithmetic]) (eval_int least _ (by decide +kernel))
      (eval_int (-1) _ (by decide +kernel))).fault ?_⟩
    rintro n ⟨q, whole, small, -, -⟩
    have most := q.toInt_lt
    have one : (-1 : Int64).toInt = -1 := by decide
    rw [value, one] at whole
    rw [one] at small
    omega
  · have read : Evaluator.readAt "x" [] (passed (evaluator.eval {} (.int least)) machine) =
        .ok (.int (-1)) (passed (Evaluator.readAt "x" [])
          (passed (evaluator.eval {} (.int least)) machine)) :=
      Exec.eq_ok_of_finish (eq_ok_of_toOption (by decide +kernel))
    have operator : AssignOp.sub.operator? = some .sub := rfl
    exact ⟨_, (compound operator rfl (eval_int least _ (by decide +kernel)) read).exact
      9223372036854775807 (show (9223372036854775807 : Int64).toInt = _ by decide)⟩
  · refine ⟨_, (negated (eval_int least _ (by decide +kernel))).fault fun n opposite => ?_⟩
    have most := n.toInt_lt
    rw [value] at opposite
    omega
  · exact (divided (-7) 2).2 (.int (-3)) (.int (-1)) (by rfl) (by rfl)

end Int64Limits

end LedgerScript
