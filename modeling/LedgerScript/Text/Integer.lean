import LedgerScript.Text.Character

/-!
# Decimal integers in text

One optional sign, then decimal digits, with nothing before or after.  The
digits are read from the left, so of two faults the first one in the text is
reported.
-/

namespace LedgerScript.Text

/-- Why a text is no integer of the wanted range. -/
inductive IntegerFault where
  /-- There is no character to read. -/
  | empty
  /-- A character is no digit, or a sign stands alone. -/
  | invalidDigit
  /-- The value lies above the range. -/
  | tooLarge
  /-- The value lies below the range. -/
  | tooSmall
  deriving DecidableEq, Repr

/-- The wording of a fault. -/
def IntegerFault.message : IntegerFault → String
  | .empty => "cannot parse integer from empty string"
  | .invalidDigit => "invalid digit found in string"
  | .tooLarge => "number too large to fit in target type"
  | .tooSmall => "number too small to fit in target type"

/-- The value of a decimal digit. -/
def digit? (c : Char) : Option Nat :=
  if '0' ≤ c ∧ c ≤ '9' then some (c.toNat - '0'.toNat) else none

/-- Reads digits onto `value` and stops at the first value above `limit`. -/
def readDigits (limit : Nat) (overflow : IntegerFault) :
    Nat → List Char → Except IntegerFault Nat
  | value, [] => .ok value
  | value, c :: rest =>
    match digit? c with
    | none => .error .invalidDigit
    | some d =>
      if value * 10 + d ≤ limit then readDigits limit overflow (value * 10 + d) rest
      else .error overflow

/-- Reads a natural number of at most `limit`; a plus sign may stand in front. -/
def readNat (limit : Nat) : List Char → Except IntegerFault Nat
  | [] => .error .empty
  | '+' :: [] => .error .invalidDigit
  | '+' :: rest => readDigits limit .tooLarge 0 rest
  | digits => readDigits limit .tooLarge 0 digits

/-- Reads a signed 64-bit integer; either sign may stand in front. -/
def readInt64 : List Char → Except IntegerFault Int64
  | [] => .error .empty
  | '+' :: [] => .error .invalidDigit
  | '-' :: [] => .error .invalidDigit
  | '-' :: rest => return Int64.ofInt (-(← readDigits 0x8000000000000000 .tooSmall 0 rest))
  | '+' :: rest => return Int64.ofInt (← readDigits 0x7fffffffffffffff .tooLarge 0 rest)
  | digits => return Int64.ofInt (← readDigits 0x7fffffffffffffff .tooLarge 0 digits)

/-- What `readDigits` reads stays within the limit. -/
theorem readDigits_le {limit value n : Nat} {overflow : IntegerFault} {cs : List Char}
    (start : value ≤ limit) (h : readDigits limit overflow value cs = .ok n) :
    n ≤ limit := by
  induction cs generalizing value with
  | nil => simp only [readDigits, Except.ok.injEq] at h; omega
  | cons c rest ih =>
    simp only [readDigits] at h
    split at h
    · contradiction
    · split at h
      · next below => exact ih below h
      · contradiction

end LedgerScript.Text
