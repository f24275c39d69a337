import LedgerScript.Contract.ScriptFault
import LedgerScript.Value.Json

/-!
# Operators

Arithmetic is exact: a result that 64 bits cannot hold is a fault and never
wraps around (`exact_eq_ok_iff`).  Division goes toward zero, and the remainder takes the sign of
the dividend.
-/

namespace LedgerScript

open Script (UnaryOp BinaryOp)

/-- An exact result, if it is a 64-bit integer, else `integerOverflow`. -/
def exact (n : Int) : Except ScriptFault Value :=
  if -0x8000000000000000 ≤ n ∧ n < 0x8000000000000000 then .ok (.int (Int64.ofInt n))
  else .error .integerOverflow

/-- `exact` gives the very number, and fails only if no `Int64` is that number. -/
theorem exact_eq_ok_iff {n : Int} {v : Value} :
    exact n = .ok v ↔ ∃ r : Int64, v = .int r ∧ r.toInt = n := by
  unfold exact
  split
  · next fits =>
    have back : (Int64.ofInt n).toInt = n := Int64.toInt_ofInt_of_le fits.1 fits.2
    constructor
    · intro h
      simp only [Except.ok.injEq] at h
      exact ⟨_, h.symm, back⟩
    · rintro ⟨r, rfl, rfl⟩
      simp
  · next wide =>
    constructor
    · intro h
      contradiction
    · rintro ⟨r, rfl, rfl⟩
      exact absurd ⟨r.le_toInt, r.toInt_lt⟩ wide

/-- The quotient toward zero, of a divisor other than zero, else `divisionByZero`. -/
def quotient (a b : Int64) : Except ScriptFault Value :=
  if b = 0 then .error .divisionByZero else exact (a.toInt.tdiv b.toInt)

/-- The remainder that goes with the `quotient`; without a quotient there is none. -/
def remainder (a b : Int64) : Except ScriptFault Value := do
  let _ ← quotient a b
  exact (a.toInt.tmod b.toInt)

/-- A sum of numbers, or a text joined with whatever stands beside it. -/
def sum : Value → Value → Except ScriptFault Value
  | .int a, .int b => exact (a.toInt + b.toInt)
  | .str s, right => .ok (.str (s ++ right.shown))
  | left, .str t => .ok (.str (left.shown ++ t))
  | left, right => .error (.unsupportedOperands .add left.kind right.kind)

/-- Applies `f` to two numbers; other operands are `unsupportedOperands`. -/
def onInts (op : BinaryOp) (f : Int64 → Int64 → Except ScriptFault Value) :
    Value → Value → Except ScriptFault Value
  | .int a, .int b => f a b
  | left, right => .error (.unsupportedOperands op left.kind right.kind)

/-- Compares two numbers, or two texts by their code points. -/
def compared (op : BinaryOp) (ints : Int64 → Int64 → Bool)
    (texts : String → String → Bool) : Value → Value → Except ScriptFault Value
  | .int a, .int b => .ok (.bool (ints a b))
  | .str s, .str t => .ok (.bool (texts s t))
  | left, right => .error (.unsupportedOperands op left.kind right.kind)

/-- Applies an operator to its operands. -/
def Script.BinaryOp.apply : BinaryOp → Value → Value → Except ScriptFault Value
  | .eq, left, right => .ok (.bool (left = right))
  | .notEq, left, right => .ok (.bool (left ≠ right))
  | .add, left, right => sum left right
  | .sub, left, right => onInts .sub (fun a b => exact (a.toInt - b.toInt)) left right
  | .mul, left, right => onInts .mul (fun a b => exact (a.toInt * b.toInt)) left right
  | .div, left, right => onInts .div quotient left right
  | .rem, left, right => onInts .rem remainder left right
  | .lt, left, right => compared .lt (· < ·) (· < ·) left right
  | .ltEq, left, right => compared .ltEq (· ≤ ·) (· ≤ ·) left right
  | .gt, left, right => compared .gt (· > ·) (· > ·) left right
  | .gtEq, left, right => compared .gtEq (· ≥ ·) (· ≥ ·) left right

/-- Applies an operator to its operand. -/
def Script.UnaryOp.apply : UnaryOp → Value → Except ScriptFault Value
  | .not, v => .ok (.bool (!v.truthy))
  | .neg, .int n => exact (-n.toInt)
  | .neg, v => .error (.cannotNegate v.kind)

end LedgerScript
