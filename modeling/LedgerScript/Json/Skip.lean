import LedgerScript.Json.Reader

/-!
# Passing over what is not wanted

A field of an unknown name may hold any value.  The value is passed over
without being built, with a list of the containers that are still open.  Only
the grammar is checked, and more loosely than where a value is read: surrogates
need no partner and containers may nest without bound.
-/

namespace LedgerScript.Json

/-- A container that is still open. -/
inductive Container where
  | list
  | object
  deriving DecidableEq

namespace Container

/-- The byte that closes a container. -/
def close : Container → UInt8
  | list => 0x5d
  | object => 0x7d

/-- The fault of a container that the document does not close. -/
def eof : Container → Fault
  | list => .eofInList
  | object => .eofInObject

/-- The fault of a part without a comma before it. -/
def commaOrEnd : Container → Fault
  | list => .expectedListCommaOrEnd
  | object => .expectedObjectCommaOrEnd

end Container

/-- Passes over the exponent of a number, from its letter on. -/
def skipExponent : Read Unit := do
  skip
  match ← peek with
  | some 0x2b => skip
  | some 0x2d => skip
  | _ => pure ()
  match (← next).bind digit? with
  | none => fail .invalidNumber
  | some _ =>
    let _ ← skipDigits 0 (← turns)

/-- Passes over a number behind its sign. -/
def skipNumber : Read Unit := do
  match (← next).bind digit? with
  | none => fail .invalidNumber
  | some 0 => if (← peekDigit).isSome then failAhead .invalidNumber
  | some _ =>
    let _ ← skipDigits 0 (← turns)
  if (← peek) = some 0x2e then
    skip
    if (← skipDigits 0 (← turns)) = 0 then failAhead .invalidNumber
  if ← atExponent then skipExponent

/-- Passes over a string behind its opening quote. -/
def skipString : Nat → Read Unit
  | 0 => fail .eofInString
  | n + 1 => do
    match ← peek with
    | none => fail .eofInString
    | some b =>
      if b = 0x22 then skip
      else if b = 0x5c then
        skip
        match ← next with
        | none => fail .eofInString
        | some e =>
          if (shortEscape? e).isSome then skipString n
          else if e = 0x75 then
            let _ ← hexEscape
            skipString n
          else fail .invalidEscape
      else if b < 0x20 then fail .controlCharacter
      else
        skip
        skipString n

/-- Passes over the name of a field with its colon. -/
def skipKey : Read Unit := do
  match ← peekPastSpace with
  | none => failAhead .eofInObject
  | some b =>
    if b = 0x22 then
      skip
      skipString (← turns)
      match ← peekPastSpace with
      | none => failAhead .eofInObject
      | some c => if c = 0x3a then skip else failAhead .expectedColon
    else failAhead .keyMustBeString

/-- What stands next while something is passed over. -/
inductive Awaited where
  /-- A value. -/
  | value
  /-- The end of the innermost container or another part of it; after a part,
  a comma comes first. -/
  | part (comma : Bool)
  deriving DecidableEq

/-- What follows the value that begins with the byte `b`. -/
def skipStart (b : UInt8) (containers : List Container) :
    Read (Awaited × List Container) := do
  if b = 0x6e then
    skip
    nullRest
    return (.part true, containers)
  else if b = 0x74 then
    skip
    trueRest
    return (.part true, containers)
  else if b = 0x66 then
    skip
    falseRest
    return (.part true, containers)
  else if b = 0x2d then
    skip
    skipNumber
    return (.part true, containers)
  else if (digit? b).isSome then
    skipNumber
    return (.part true, containers)
  else if b = 0x22 then
    skip
    skipString (← turns)
    return (.part true, containers)
  else if b = 0x5b then
    skip
    return (.part false, .list :: containers)
  else if b = 0x7b then
    skip
    return (.part false, .object :: containers)
  else failAhead .expectedValue

/-- Goes on to the next value of the innermost container, or out of it. -/
def skipPart (comma : Bool) (container : Container) (outer : List Container) :
    Read (Awaited × List Container) := do
  let into : Read (Awaited × List Container) := do
    if container = .object then skipKey
    return (.value, container :: outer)
  match ← peekPastSpace with
  | none => failAhead container.eof
  | some b =>
    if comma && b = 0x2c then
      skip
      into
    else if b = container.close then
      skip
      return (.part true, outer)
    else if comma then failAhead container.commaOrEnd
    else into

/-- Passes over values and containers until none is open. -/
def skipFrom : Nat → Awaited → List Container → Read Unit
  | 0, _, _ => failAhead .eofInValue
  | n + 1, .value, containers => do
    match ← peekPastSpace with
    | none => failAhead .eofInValue
    | some b =>
      let (awaited, containers) ← skipStart b containers
      skipFrom n awaited containers
  | _ + 1, .part _, [] => return
  | n + 1, .part comma, container :: outer => do
    let (awaited, containers) ← skipPart comma container outer
    skipFrom n awaited containers

/-- Passes over one value. -/
def skipValue : Read Unit := do
  skipFrom (2 * (← turns)) .value []

end LedgerScript.Json
