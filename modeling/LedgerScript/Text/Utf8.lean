/-!
# Text as bytes

Text is stored and hashed as UTF-8.  Bytes that are no text are refused with
the place where they stop being so: a sequence that no character starts with,
or one that the end of the bytes cuts short.
-/

namespace LedgerScript.Text

/-- The bytes of a text. -/
def utf8 (s : String) : List UInt8 :=
  s.toUTF8.data.toList

/-- Where and how bytes stop being text. -/
inductive Utf8Fault where
  /-- The `length` bytes from `index` on start no character. -/
  | invalid (index length : Nat)
  /-- The bytes from `index` on start a character and end before it does. -/
  | incomplete (index : Nat)
  deriving DecidableEq, Repr

/-- How many bytes come before a fault. -/
def Utf8Fault.index : Utf8Fault → Nat
  | .invalid index _ | .incomplete index => index

/-- The wording of a fault. -/
def Utf8Fault.message : Utf8Fault → String
  | .invalid index length =>
    s!"invalid utf-8 sequence of {length} bytes from index {index}"
  | .incomplete index => s!"incomplete utf-8 byte sequence from index {index}"

namespace Utf8

/-- A byte that continues a character. -/
def isTail (b : UInt8) : Bool :=
  0x80 ≤ b && b ≤ 0xbf

/-- How many bytes the character that starts with `b` takes. -/
def width? (b : UInt8) : Option Nat :=
  if b ≤ 0x7f then some 1
  else if 0xc2 ≤ b && b ≤ 0xdf then some 2
  else if 0xe0 ≤ b && b ≤ 0xef then some 3
  else if 0xf0 ≤ b && b ≤ 0xf4 then some 4
  else none

/-- The second byte keeps the character in the shortest form, out of the
surrogates and below the last code point. -/
def isSecond (first b : UInt8) : Bool :=
  if first = 0xe0 then 0xa0 ≤ b && b ≤ 0xbf
  else if first = 0xed then 0x80 ≤ b && b ≤ 0x9f
  else if first = 0xf0 then 0x90 ≤ b && b ≤ 0xbf
  else if first = 0xf4 then 0x80 ≤ b && b ≤ 0x8f
  else isTail b

/-- Counts the good bytes of a character that owes `owed` more, of which
`seen` have been read; `none` when all of them follow. -/
def tailFault (index seen owed : Nat) (bytes : List UInt8) : Option Utf8Fault :=
  match owed, bytes with
  | 0, _ => none
  | _ + 1, [] => some (.incomplete index)
  | owed + 1, b :: rest =>
    if isTail b then tailFault index (seen + 1) owed rest else some (.invalid index seen)

/-- The fault of the character at the head of `bytes`, which stands at
`index`. -/
def headFault (index : Nat) : List UInt8 → Option Utf8Fault
  | [] => none
  | b :: rest =>
    match width? b with
    | none => some (.invalid index 1)
    | some 1 => none
    | some width =>
      match rest with
      | [] => some (.incomplete index)
      | c :: rest =>
        if isSecond b c then tailFault index 2 (width - 2) rest
        else some (.invalid index 1)

/-- The first fault of `bytes`; `skip` bytes of a good character are passed
over first. -/
def firstFault (index : Nat) : (skip : Nat) → List UInt8 → Option Utf8Fault
  | _, [] => none
  | skip + 1, _ :: rest => firstFault (index + 1) skip rest
  | 0, b :: rest =>
    match headFault index (b :: rest) with
    | some fault => some fault
    | none => firstFault (index + 1) ((width? b).getD 1 - 1) rest

end Utf8

/-- The text that bytes spell. -/
def ofUtf8 (bytes : List UInt8) : Except Utf8Fault String :=
  match String.fromUTF8? ⟨bytes.toArray⟩ with
  | some s => .ok s
  | none => .error ((Utf8.firstFault 0 0 bytes).getD (.incomplete bytes.length))

/-- `ofUtf8` gives a text back from its own bytes. -/
theorem ofUtf8_utf8 (s : String) : ofUtf8 (utf8 s) = .ok s := by
  have round : String.fromUTF8? ⟨(utf8 s).toArray⟩ = some s := by
    change String.fromUTF8? ⟨s.toUTF8.data.toList.toArray⟩ = some s
    rw [Array.toArray_toList]
    unfold String.fromUTF8?
    rw [String.toUTF8_eq_toByteArray]
    exact dif_pos s.isValidUTF8
  simp [ofUtf8, round]

/-- Bytes that `ofUtf8` reads as a text are the bytes of that text. -/
theorem utf8_of_ofUtf8 {bytes : List UInt8} {s : String} (h : ofUtf8 bytes = .ok s) :
    utf8 s = bytes := by
  unfold ofUtf8 at h
  split at h
  · next t ht =>
    simp only [Except.ok.injEq] at h
    subst h
    simp only [String.fromUTF8?] at ht
    split at ht
    · simp only [Option.some.injEq] at ht
      subst ht
      rfl
    · contradiction
  · contradiction

/-- A text as long as its bytes. -/
theorem length_utf8 (s : String) : (utf8 s).length = s.utf8ByteSize := rfl

end LedgerScript.Text
