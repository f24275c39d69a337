import LedgerScript.Decimal.Shortest
import LedgerScript.Json.Error
import LedgerScript.Text.Utf8

/-!
# Reading documents byte by byte

The parts of JSON that hold no other parts: blanks, literals, numbers and
strings.  A reader keeps its place when it fails, because the part around it
may still take its own end.
-/

namespace LedgerScript.Json

/-- What is left of a document, and the place where it begins. -/
structure Input where
  rest : List UInt8
  place : Place

namespace Input

/-- A document from its first byte on. -/
def ofBytes (bytes : List UInt8) : Input := ⟨bytes, .start⟩

/-- Takes one byte. -/
def drop (input : Input) : Input :=
  match input.rest with
  | [] => input
  | b :: rest => ⟨rest, input.place.after b⟩

/-- The place after the next byte; at the end there is none to pass. -/
def ahead (input : Input) : Place := input.drop.place

end Input

/-- Reads a part of a document. -/
abbrev Read := EStateM Error Input

/-! ## Single bytes -/

/-- The next byte, which stays. -/
def peek : Read (Option UInt8) := fun input => .ok input.rest.head? input

/-- Takes the next byte. -/
def next : Read (Option UInt8) := fun input => .ok input.rest.head? input.drop

/-- Takes the next byte, whatever it is. -/
def skip : Read Unit := fun input => .ok () input.drop

/-- A fault in what has been read. -/
def fail {α : Type} (f : Fault) : Read α := fun input => .error ⟨f, some input.place⟩ input

/-- A fault in the next byte. -/
def failAhead {α : Type} (f : Fault) : Read α := fun input =>
  .error ⟨f, some input.ahead⟩ input

/-- A fault in what the document says, which gets its place later. -/
def refuse {α : Type} (f : Fault) : Read α := fun input => .error ⟨f, none⟩ input

/-- Turns enough for a repetition of which every turn but the last takes a
byte. -/
def turns : Read Nat := fun input => .ok (input.rest.length + 1) input

/-- A blank of the grammar. -/
def isSpace (b : UInt8) : Bool :=
  b = 0x20 || b = 0x0a || b = 0x09 || b = 0x0d

/-- What follows the blanks at the head of a document. -/
def dropSpace : List UInt8 → Place → Input
  | [], place => ⟨[], place⟩
  | b :: rest, place =>
    if isSpace b then dropSpace rest (place.after b) else ⟨b :: rest, place⟩

/-- Takes blanks and looks at the byte behind them. -/
def peekPastSpace : Read (Option UInt8) := fun input =>
  let input := dropSpace input.rest input.place
  .ok input.rest.head? input

/-- Gives a fault without a place the place where reading stopped. -/
def located {α : Type} (read : Read α) : Read α := fun input =>
  match read input with
  | .ok a input => .ok a input
  | .error e input => .error { e with place := e.place.or (some input.place) } input

/-- Reads a part and then its end, also after a fault in the part; of two
faults the first is reported. -/
def enclosed {α : Type} (read : Read α) (finish : Read Unit) : Read α := fun input =>
  match read input with
  | .ok a input =>
    match finish input with
    | .ok _ input => .ok a input
    | .error e input => .error e input
  | .error e input =>
    match finish input with
    | .ok _ input => .error e input
    | .error _ input => .error e input

/-- Takes the bytes of a literal. -/
def literal : List UInt8 → Read Unit
  | [] => return
  | wanted :: rest => do
    match ← next with
    | none => fail .eofInValue
    | some b => if b = wanted then literal rest else fail .expectedIdent

/-- The literal `null` behind its first letter. -/
def nullRest : Read Unit := literal [0x75, 0x6c, 0x6c]

/-- The literal `true` behind its first letter. -/
def trueRest : Read Unit := literal [0x72, 0x75, 0x65]

/-- The literal `false` behind its first letter. -/
def falseRest : Read Unit := literal [0x61, 0x6c, 0x73, 0x65]

/-! ## Numbers -/

/-- A number: an integer of a machine word, or a double. -/
inductive Number where
  | natural (n : Nat)
  | negative (n : Int)
  | real (x : Float)

/-- How a number is shown where something else is wanted. -/
def Number.found : Number → Found
  | natural n => .integer n
  | negative n => .integer n
  | real x => .real (Decimal.ofFloat x)

/-- The value of a decimal digit. -/
def digit? (b : UInt8) : Option Nat :=
  if 0x30 ≤ b && b ≤ 0x39 then some (b.toNat - 0x30) else none

/-- Looks for a digit. -/
def peekDigit : Read (Option Nat) := do
  return (← peek).bind digit?

/-- The largest machine word. -/
def maxWord : Nat := 0xffffffffffffffff

/-- Takes digits and counts them. -/
def skipDigits (count : Nat) : Nat → Read Nat
  | 0 => return count
  | n + 1 => do
    match ← peekDigit with
    | some _ => skip; skipDigits (count + 1) n
    | none => return count

/-- Takes digits onto `value` while it fits a word; tells how many were taken
and whether one is left that does not fit. -/
def wordDigits (value count : Nat) : Nat → Read (Nat × Nat × Bool)
  | 0 => return (value, count, false)
  | n + 1 => do
    match ← peekDigit with
    | some d =>
      if value * 10 + d ≤ maxWord then
        skip
        wordDigits (value * 10 + d) (count + 1) n
      else return (value, count, true)
    | none => return (value, count, false)

/-- Divides by `10 ^ 308` until the exponent is in the table of powers. -/
def shrink (x : Float) (e : Int) : Nat → Float × Int
  | 0 => (x, e)
  | n + 1 =>
    if -308 ≤ e ∨ x == 0.0 then (x, e) else shrink (x / 1e308) (e + 308) n

/-- The double nearest to `significand`, times or over a power of ten. -/
def double (positive : Bool) (significand : Nat) (exponent : Int) : Read Number := do
  let x := significand.toUInt64.toFloat
  let signed (x : Float) : Number := .real (if positive then x else -x)
  if 308 < exponent then
    if x == 0.0 then return signed x else fail .numberOutOfRange
  else if 0 ≤ exponent then
    let y := x * Float.ofScientific 1 false exponent.toNat
    if y.isInf then fail .numberOutOfRange else return signed y
  else
    let (y, e) := shrink x exponent exponent.natAbs
    if y == 0.0 then return signed y
    else return signed (y / Float.ofScientific 1 false e.natAbs)

/-- The largest exponent that is read. -/
def maxExponent : Nat := 0x7fffffff

/-- Takes the digits of an exponent onto `value`; nothing when it is beyond
all bounds. -/
def exponentDigits (value : Nat) : Nat → Read (Option Nat)
  | 0 => return some value
  | n + 1 => do
    match ← peekDigit with
    | some d =>
      skip
      if value * 10 + d ≤ maxExponent then exponentDigits (value * 10 + d) n
      else return none
    | none => return some value

/-- An exponent from its letter on, added to `start`. -/
def exponent (positive : Bool) (significand : Nat) (start : Int) : Read Number := do
  skip
  let upward ← match ← peek with
    | some 0x2b => skip; pure true
    | some 0x2d => skip; pure false
    | _ => pure true
  match ← next with
  | none => fail .eofInValue
  | some b =>
    match digit? b with
    | none => fail .invalidNumber
    | some d =>
      match ← exponentDigits d (← turns) with
      | some e =>
        let total := if upward then start + e else start - e
        double positive significand (max (-0x80000000) (min 0x7fffffff total))
      | none =>
        if significand ≠ 0 ∧ upward then fail .numberOutOfRange
        else
          let _ ← skipDigits 0 (← turns)
          return .real (if positive then 0.0 else -0.0)

/-- Whether the next byte begins an exponent. -/
def atExponent : Read Bool := do
  match ← peek with
  | some 0x65 => return true
  | some 0x45 => return true
  | _ => return false

/-- A fraction from its point on; the integer part has `start` digits that did
not fit the significand. -/
def fraction (positive : Bool) (significand : Nat) (start : Int) : Read Number := do
  skip
  let (value, count, full) ← wordDigits significand 0 (← turns)
  if full then
    let _ ← skipDigits 0 (← turns)
  else if count = 0 then
    match ← peek with
    | some _ => failAhead .invalidNumber
    | none => failAhead .eofInValue
  let total := start - count
  if ← atExponent then exponent positive value total else double positive value total

/-- The rest of a number whose integer part is `significand`. -/
def numberRest (positive : Bool) (significand : Nat) : Read Number := do
  match ← peek with
  | some 0x2e => fraction positive significand 0
  | _ =>
    if ← atExponent then exponent positive significand 0
    else if positive then return .natural significand
    else if significand = 0 ∨ 0x8000000000000000 < significand then
      return .real (-significand.toUInt64.toFloat)
    else return .negative (-significand)

/-- The rest of a number whose integer part does not fit a word. -/
def longRest (positive : Bool) (significand : Nat) : Read Number := do
  let extra ← skipDigits 0 (← turns)
  match ← peek with
  | some 0x2e => fraction positive significand extra
  | _ =>
    if ← atExponent then exponent positive significand extra
    else double positive significand extra

/-- A number behind its sign. -/
def number (positive : Bool) : Read Number := do
  match ← next with
  | none => fail .eofInValue
  | some b =>
    match digit? b with
    | none => fail .invalidNumber
    | some 0 =>
      match ← peekDigit with
      | some _ => failAhead .invalidNumber
      | none => numberRest positive 0
    | some d =>
      let (value, _, full) ← wordDigits d 0 (← turns)
      if full then longRest positive value else numberRest positive value

/-! ## Strings -/

/-- Takes exactly four hexadecimal digits. -/
def hexEscape : Read Nat := fun input =>
  match input.rest with
  | a :: b :: c :: d :: _ =>
    let taken := input.drop.drop.drop.drop
    match Text.Hex.value? a, Text.Hex.value? b, Text.Hex.value? c, Text.Hex.value? d with
    | some a, some b, some c, some d => .ok (((a * 16 + b) * 16 + c) * 16 + d) taken
    | _, _, _, _ => fail .invalidEscape taken
  | _ => fail .eofInString (input.drop.drop.drop)

/-- Takes the byte that must join two surrogates. -/
def joint (wanted : UInt8) : Read Unit := do
  match ← next with
  | none => fail .eofInString
  | some b => if b = wanted then return else fail .endOfHexEscape

/-- The code point of a numbered escape; a pair of surrogates is one. -/
def numberedEscape : Read Nat := do
  let first ← hexEscape
  if 0xdc00 ≤ first ∧ first ≤ 0xdfff then fail .loneSurrogate
  else if 0xd800 ≤ first ∧ first ≤ 0xdbff then
    joint 0x5c
    joint 0x75
    let second ← hexEscape
    if 0xdc00 ≤ second ∧ second ≤ 0xdfff then
      return (first - 0xd800) * 0x400 + (second - 0xdc00) + 0x10000
    else fail .loneSurrogate
  else return first

/-- The byte that a short escape stands for. -/
def shortEscape? (b : UInt8) : Option UInt8 :=
  match b with
  | 0x22 => some 0x22
  | 0x5c => some 0x5c
  | 0x2f => some 0x2f
  | 0x62 => some 0x08
  | 0x66 => some 0x0c
  | 0x6e => some 0x0a
  | 0x72 => some 0x0d
  | 0x74 => some 0x09
  | _ => none

/-- The bytes that an escape stands for, behind its backslash. -/
def escape : Read (List UInt8) := do
  match ← next with
  | none => fail .eofInString
  | some b =>
    match shortEscape? b with
    | some byte => return [byte]
    | none =>
      if b = 0x75 then return String.utf8EncodeChar (Char.ofNat (← numberedEscape))
      else fail .invalidEscape

/-- The bytes of a string up to its closing quote, behind those of `taken`,
which are in reverse. -/
def stringBytes (taken : List UInt8) : Nat → Read (List UInt8)
  | 0 => fail .eofInString
  | n + 1 => do
    match ← next with
    | none => fail .eofInString
    | some b =>
      if b = 0x22 then return taken.reverse
      else if b = 0x5c then stringBytes ((← escape).reverse ++ taken) n
      else if b < 0x20 then fail .controlCharacter
      else stringBytes (b :: taken) n

/-- The place of bytes that are no text in a string that ends at `place`: as
far in front of the end as the resolved `bytes` go on behind the good ones. -/
def badTextPlace (place : Place) (bytes : List UInt8) (fault : Text.Utf8Fault) : Place :=
  { place with column := place.column - (bytes.length - fault.index) }

/-- The text of the bytes of a string that has been read. -/
def stringText (bytes : List UInt8) : Read String := fun input =>
  match Text.ofUtf8 bytes with
  | .ok s => .ok s input
  | .error fault =>
    .error ⟨.invalidUnicode, some (badTextPlace input.place bytes fault)⟩ input

/-- A string behind its opening quote. -/
def stringRest : Read String := do
  stringText (← stringBytes [] (← turns))

end LedgerScript.Json
