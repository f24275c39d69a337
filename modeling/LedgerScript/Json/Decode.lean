import LedgerScript.Json.Skip

/-!
# Reading what is wanted

Readers of one JSON type each, and of records and choices built from them.
`room` is how many containers may still open inside the one being read.  What
a document says wrongly is reported as soon as it is read, so a fault of
meaning in front wins over a fault of grammar behind it.
-/

namespace LedgerScript.Json

/-- How deep a document may nest. -/
def maxNesting : Nat := 127

/-- A container opens and takes one level of `room`. -/
def enter : (room : Nat) → Read Nat
  | 0 => failAhead .recursionLimit
  | room + 1 => do
    skip
    return room

/-! ## Something else than wanted -/

/-- Reads what stands where `wanted` should, and refuses it. -/
def mismatch {α : Type} (wanted : String) : Read α := do
  let refused (found : Found) : Read α := refuse (.invalidType found wanted)
  match ← peek with
  | none => failAhead .expectedValue
  | some b =>
    if b = 0x6e then
      skip
      nullRest
      refused .null
    else if b = 0x74 then
      skip
      trueRest
      refused (.bool true)
    else if b = 0x66 then
      skip
      falseRest
      refused (.bool false)
    else if b = 0x2d then
      skip
      refused (← number false).found
    else if (digit? b).isSome then refused (← number true).found
    else if b = 0x22 then
      skip
      refused (.string (← stringRest))
    else if b = 0x5b then refused .sequence
    else if b = 0x7b then refused .map
    else failAhead .expectedValue

/-- Looks at the first byte of a value, which must be there. -/
def peekValue : Read UInt8 := do
  match ← peekPastSpace with
  | some b => return b
  | none => failAhead .eofInValue

/-! ## Scalars -/

/-- Text. -/
def readString : Read String := do
  let b ← peekValue
  located (if b = 0x22 then do skip; stringRest else mismatch "a string")

/-- A natural number of at most `max`; `type` names the range. -/
def readNat (type : String) (max : Nat) : Read Nat := do
  let b ← peekValue
  let accepted (n : Number) : Read Nat :=
    match n with
    | .natural n =>
      if n ≤ max then return n else refuse (.invalidValue (.integer n) type)
    | .negative n => refuse (.invalidValue (.integer n) type)
    | .real x => refuse (.invalidType (Number.real x).found type)
  located (
    if b = 0x2d then do skip; accepted (← number false)
    else if (digit? b).isSome then do accepted (← number true)
    else mismatch type)

/-- A number of 64 bits. -/
def readWord (type : String := "u64") : Read UInt64 := do
  return UInt64.ofNat (← readNat type 0xffffffffffffffff)

/-- A length, of 64 bits as well. -/
def readLength : Read UInt64 := readWord "usize"

/-- A number of 16 bits. -/
def readShort : Read UInt16 := do
  return UInt16.ofNat (← readNat "u16" 0xffff)

/-- A byte. -/
def readByte : Read UInt8 := do
  return UInt8.ofNat (← readNat "u8" 0xff)

/-- Nothing, written as null. -/
def readUnit : Read Unit := do
  let b ← peekValue
  located (if b = 0x6e then do skip; nullRest else mismatch "unit")

/-! ## Lists -/

/-- Looks whether a list goes on, and takes the comma before its next item. -/
def nextItem (first : Bool) : Read Bool := do
  match ← peekPastSpace with
  | none => failAhead .eofInList
  | some b =>
    if b = 0x5d then return false
    else if first then return true
    else if b = 0x2c then
      skip
      match ← peekPastSpace with
      | none => failAhead .eofInValue
      | some c => if c = 0x5d then failAhead .trailingComma else return true
    else failAhead .expectedListCommaOrEnd

/-- The end of a list. -/
def endList : Read Unit := do
  match ← peekPastSpace with
  | none => failAhead .eofInList
  | some b =>
    if b = 0x5d then skip
    else if b = 0x2c then
      skip
      if (← peekPastSpace) = some 0x5d then failAhead .trailingComma
      else failAhead .trailingCharacters
    else failAhead .trailingCharacters

/-- The items of a list up to its end. -/
def itemsFrom {α : Type} (item : Read α) (first : Bool) : Nat → Read (List α)
  | 0 => failAhead .eofInList
  | n + 1 => do
    if ← nextItem first then
      let head ← item
      return head :: (← itemsFrom item false n)
    else return []

/-- A list of whatever `item` reads. -/
def readList {α : Type} (item : Nat → Read α) (room : Nat) : Read (List α) := do
  let b ← peekValue
  located (
    if b = 0x5b then do
      let inner ← enter room
      enclosed (do itemsFrom (item inner) true (← turns)) endList
    else mismatch "a sequence")

/-- Bytes, written as a list of numbers. -/
def readBytes (room : Nat) : Read (List UInt8) :=
  readList (fun _ => readByte) room

/-- Texts. -/
def readStrings (room : Nat) : Read (List String) :=
  readList (fun _ => readString) room

/-! ## Objects -/

/-- Looks whether an object goes on, and reads the name of its next field. -/
def nextKey (first : Bool) : Read (Option String) := do
  match ← peekPastSpace with
  | none => failAhead .eofInObject
  | some b =>
    if b = 0x7d then return none
    else if first then
      if b = 0x22 then do skip; return some (← stringRest)
      else failAhead .keyMustBeString
    else if b = 0x2c then
      skip
      match ← peekPastSpace with
      | none => failAhead .eofInValue
      | some c =>
        if c = 0x22 then do skip; return some (← stringRest)
        else if c = 0x7d then failAhead .trailingComma
        else failAhead .keyMustBeString
    else failAhead .expectedObjectCommaOrEnd

/-- The colon between a name and its value. -/
def colon : Read Unit := do
  match ← peekPastSpace with
  | none => failAhead .eofInObject
  | some b => if b = 0x3a then skip else failAhead .expectedColon

/-- The end of an object. -/
def endObject : Read Unit := do
  match ← peekPastSpace with
  | none => failAhead .eofInObject
  | some b =>
    if b = 0x7d then skip
    else if b = 0x2c then failAhead .trailingComma
    else failAhead .trailingCharacters

/-- The fields of an object up to its end, in the order of the document. -/
def fieldsFrom {α : Type} (value : Read α) (first : Bool) :
    Nat → Read (List (String × α))
  | 0 => failAhead .eofInObject
  | n + 1 => do
    match ← nextKey first with
    | none => return []
    | some key =>
      colon
      let v ← value
      return (key, v) :: (← fieldsFrom value false n)

/-- An object whose names are data. -/
def readMap {α : Type} (value : Nat → Read α) (room : Nat) :
    Read (List (String × α)) := do
  let b ← peekValue
  located (
    if b = 0x7b then do
      let inner ← enter room
      enclosed (do fieldsFrom (value inner) true (← turns)) endObject
    else mismatch "a map")

/-! ## Records -/

/-- A field of a record that is drafted in `δ`. -/
structure RecordField (δ : Type) where
  name : String
  /-- Reads the value of the field into a draft. -/
  read : (room : Nat) → δ → Read δ
  /-- The draft has the field. -/
  given : δ → Bool

/-- A field of which a draft holds the value, once it is read. -/
def RecordField.of {δ α : Type} (name : String) (value : Nat → Read α) (get : δ → Option α)
    (set : δ → α → δ) : RecordField δ where
  name := name
  read room draft := do return set draft (← value room)
  given draft := (get draft).isSome

/-- How a record is read: its fields in the order of its array form, what a
draft starts from, and what a draft must have in the end. -/
structure Record (δ α : Type) where
  type : String
  fields : List (RecordField δ)
  start : δ
  finish : δ → Read α
  /-- The array form may end early. -/
  lenient : Bool := false

/-- A field that must have been read. -/
def required {α : Type} (name : String) : Option α → Read α
  | some a => return a
  | none => refuse (.missingField name)

namespace Record

variable {δ α : Type}

/-- Reads the named fields of an object into a draft; a known field comes at
most once and an unknown one is passed over. -/
def fromObject (r : Record δ α) (room : Nat) (draft : δ) (first : Bool) :
    Nat → Read δ
  | 0 => failAhead .eofInObject
  | n + 1 => do
    match ← nextKey first with
    | none => return draft
    | some key =>
      match r.fields.find? (·.name = key) with
      | none =>
        colon
        skipValue
        r.fromObject room draft false n
      | some field =>
        if field.given draft then refuse (.duplicateField key)
        else
          colon
          r.fromObject room (← field.read room draft) false n

/-- What the array form should be. -/
def arrayForm (r : Record δ α) : String :=
  let count := r.fields.length
  s!"struct {r.type} with {count} element" ++ (if count = 1 then "" else "s")

/-- Reads an array of fields into a draft; `index` counts those read. -/
def fromArray (r : Record δ α) (room : Nat) (draft : δ) (index : Nat) :
    List (RecordField δ) → Read δ
  | [] => return draft
  | field :: rest => do
    if ← nextItem (index = 0) then
      r.fromArray room (← field.read room draft) (index + 1) rest
    else if r.lenient then return draft
    else refuse (.invalidLength index r.arrayForm)

/-- A record as an object or as an array. -/
def read (r : Record δ α) (room : Nat) : Read α := do
  let b ← peekValue
  located (
    if b = 0x5b then do
      let inner ← enter room
      enclosed (do r.finish (← r.fromArray inner r.start 0 r.fields)) endList
    else if b = 0x7b then do
      let inner ← enter room
      enclosed (do r.finish (← r.fromObject inner r.start true (← turns))) endObject
    else mismatch s!"struct {r.type}")

end Record

/-! ## Choices -/

/-- The name of a choice from its opening quote on; it must be known. -/
def readVariant (known : List String) : Read String := located do
  skip
  let name ← stringRest
  if name ∈ known then return name else refuse (.unknownVariant name known)

/-- The name of a choice in front of its content. -/
def readVariantKey (known : List String) : Read String := do
  match ← peekPastSpace with
  | none => failAhead .eofInObject
  | some b =>
    if b = 0x22 then readVariant known
    else if b = 0x7d then failAhead .expectedValue
    else failAhead .keyMustBeString

/-- A choice: its name alone, or an object of its name and its content. -/
def readChoice {α : Type} (known : List String) (bare : String → Read α)
    (content : (room : Nat) → String → Read α) (room : Nat) : Read α := do
  let b ← peekValue
  if b = 0x22 then bare (← readVariant known)
  else if b = 0x7b then
    let inner ← enter room
    let name ← readVariantKey known
    colon
    let a ← content inner name
    match ← peekPastSpace with
    | none => fail .eofInObject
    | some c => if c = 0x7d then skip; return a else fail .expectedValue
  else failAhead .expectedValue

/-- A choice of which no case has content. -/
def readName {α : Type} (cases : List (String × α)) (room : Nat) : Read α :=
  let pick (name : String) : Read α :=
    match cases.lookup name with
    | some a => return a
    | none => refuse (.unknownVariant name (cases.map Prod.fst))
  readChoice (cases.map Prod.fst) pick (fun _ name => do readUnit; pick name) room

/-! ## Whole documents -/

/-- A document holds one value and blanks around it. -/
def wholeDocument {α : Type} (value : (room : Nat) → Read α) : Read α := do
  let a ← value maxNesting
  match ← peekPastSpace with
  | none => return a
  | some _ => failAhead .trailingCharacters

/-- Reads a document from its bytes. -/
def decodeBytes {α : Type} (value : (room : Nat) → Read α) (bytes : List UInt8) :
    Except Error α :=
  match wholeDocument value (.ofBytes bytes) with
  | .ok a _ => .ok a
  | .error e _ => .error e

/-- Reads a document from its text. -/
def decode {α : Type} (value : (room : Nat) → Read α) (text : String) : Except Error α :=
  decodeBytes value (Text.utf8 text)

end LedgerScript.Json
