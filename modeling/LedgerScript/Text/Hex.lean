import LedgerScript.Text.Character

/-!
# Bytes as hexadecimal digits

Two digits a byte, high half first.  Lower case is written, both cases are
read.
-/

namespace LedgerScript.Text

/-- Why digits spell no bytes of the wanted number. -/
inductive HexFault where
  /-- A digit has no partner. -/
  | oddLength
  /-- The digits spell more or fewer bytes than wanted. -/
  | wrongLength
  /-- The byte at `index` is no digit. -/
  | invalidDigit (byte : UInt8) (index : Nat)
  deriving DecidableEq, Repr

/-- The wording of a fault; a byte is shown as the character of its number. -/
def HexFault.message : HexFault → String
  | .oddLength => "Odd number of digits"
  | .wrongLength => "Invalid string length"
  | .invalidDigit byte index =>
    s!"Invalid character {quotedChar (Char.ofNat byte.toNat)} at position {index}"

namespace Hex

/-- The digit of a half byte. -/
def digit (n : Nat) : Char :=
  Nat.digitChar n

/-- The value of a digit, given as the byte that writes it. -/
def value? (b : UInt8) : Option Nat :=
  if 0x30 ≤ b && b ≤ 0x39 then some (b.toNat - 0x30)
  else if 0x61 ≤ b && b ≤ 0x66 then some (b.toNat - 0x61 + 10)
  else if 0x41 ≤ b && b ≤ 0x46 then some (b.toNat - 0x41 + 10)
  else none

/-- The two digits of a byte. -/
def pair (b : UInt8) : List Char :=
  [digit (b.toNat / 16), digit (b.toNat % 16)]

/-- Reads pairs of digits; `index` counts the digits already read. -/
def readPairs (index : Nat) : List UInt8 → Except HexFault (List UInt8)
  | high :: low :: rest =>
    match value? high, value? low with
    | none, _ => .error (.invalidDigit high index)
    | some _, none => .error (.invalidDigit low (index + 1))
    | some h, some l => return UInt8.ofNat (h * 16 + l) :: (← readPairs (index + 2) rest)
  | _ => .ok []

end Hex

/-- Bytes in lower-case digits. -/
def hex (bytes : List UInt8) : String :=
  String.ofList (bytes.flatMap Hex.pair)

/-- Reads exactly `count` bytes.  Of several faults the length is reported
before a bad digit, and a lone digit before a wrong count. -/
def readHex (count : Nat) (digits : List UInt8) : Except HexFault (List UInt8) :=
  if digits.length % 2 = 1 then .error .oddLength
  else if digits.length / 2 = count then Hex.readPairs 0 digits
  else .error .wrongLength

/-- `hex` writes two digits for every byte. -/
theorem length_hex (bytes : List UInt8) : (hex bytes).length = 2 * bytes.length := by
  induction bytes with
  | nil => rfl
  | cons b rest ih =>
    simp only [hex, String.length_ofList] at ih ⊢
    simp [Hex.pair, ih]
    omega

/-- `readPairs` gives half as many bytes as there are digits. -/
theorem Hex.length_readPairs {index : Nat} {digits bytes : List UInt8}
    (h : readPairs index digits = .ok bytes) : bytes.length = digits.length / 2 := by
  fun_induction readPairs index digits generalizing bytes with
  | case1 => contradiction
  | case2 => contradiction
  | case3 index high low rest hv lv hh hl ih =>
    cases hr : readPairs (index + 2) rest with
    | error e => simp [hr, bind, Except.bind] at h
    | ok tail =>
      simp only [hr, bind, Except.bind, pure, Except.pure, Except.ok.injEq] at h
      subst h
      simp [ih hr]
      omega
  | case4 digits index short =>
    simp only [Except.ok.injEq] at h
    subst h
    match digits, short with
    | [], _ => rfl
    | [_], _ => simp
    | a :: b :: rest, short => exact (short a b rest rfl).elim

end LedgerScript.Text
