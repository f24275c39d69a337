import LedgerScript.Contract.Error
import LedgerScript.State.Store
import LedgerScript.Value.Json

/-!
# How scripts reach the state

A script names keys relative to the namespace of its contract, and may also
spell the namespace out.  Whatever it names, only keys of its own that the host
has not reserved can be reached, and only values within the limits are kept.

A value is stored as the bytes of its canonical document.  Only values that
nest no deeper than `maxValueDepth` are written, which leaves a reader of
documents room enough for each of them.
-/

namespace LedgerScript

/-! ## Stored values -/

/-- How deep a stored or encoded value may nest. -/
def maxValueDepth : Nat := 64

/-- Refuses a value that nests deeper than `maxValueDepth`; `context` tells what it is
for. -/
def checkDepth (v : Value) (context : String) : Except ScriptFault Unit :=
  if v.depth ≤ maxValueDepth then .ok ()
  else .error (.tooDeep context v.depth maxValueDepth)

/-- The stored form of a value: its `canonical` text, or `tooDeep` or `valueTooLarge`. -/
def encodeValue (v : Value) (maxSize : Nat) : Except ScriptFault (List UInt8) := do
  checkDepth v "state value"
  let bytes := Text.utf8 v.canonical
  if bytes.length ≤ maxSize then return bytes
  else throw (.valueTooLarge bytes.length maxSize)

/-- What is stored under a key is not what should be. -/
def corrupted (key : StateKey) (reason : String) : ContractError :=
  .state (.corrupted key.qualified reason)

/-- The value of a stored form; `corrupted` if it is none. -/
def decodeValue (key : StateKey) (bytes : List UInt8) : Except ContractError Value :=
  match Text.ofUtf8 bytes with
  | .error fault => .error (corrupted key fault.message)
  | .ok text =>
    match Value.ofJson text with
    | .error e => .error (corrupted key e.message)
    | .ok v => .ok v

/-! ## Limits -/

/-- Limits on what a script may store. -/
structure StateLimits where
  maxKeyLength : UInt64 := 256
  maxValueSize : UInt64 := 10240
  maxWrites : UInt64 := 10000
  deriving DecidableEq, Repr

/-! ## Keys -/

/-- Cuts at the first `separator`. -/
def splitKey? : List Char → Option (List Char × List Char)
  | [] => none
  | c :: rest =>
    if c = StateKey.separator then some ([], rest)
    else (splitKey? rest).map fun (space, name) => (c :: space, name)

/-- A text that could name the namespace of a contract: sixty-four lower-case
digits. -/
def isContractSpace (text : List Char) : Bool :=
  text.length = 64 && text.all fun c => ('0' ≤ c && c ≤ '9') || ('a' ≤ c && c ≤ 'f')

/-- A name inside the own namespace that scripts may use: it does not begin like
`reservedStart`, and is neither empty nor too long. -/
def ownKey (own : Namespace) (raw name : String) (maxLength : Nat) :
    Except ContractError StateKey :=
  if StateKey.reservedStart.toList.isPrefixOf name.toList then
    .error (.namespaceViolation own raw)
  else if name = "" then .error (.script .emptyKey)
  else if maxLength < name.utf8ByteSize then
    .error (.script (.keyTooLong name.utf8ByteSize maxLength))
  else .ok ⟨own, name⟩

/-- The key that a script of the namespace `own` means by `raw`. -/
def resolveKey (own : Namespace) (raw : String) (maxLength : Nat) :
    Except ContractError StateKey :=
  match splitKey? raw.toList with
  | none => ownKey own raw raw maxLength
  | some (space, name) =>
    if space = own.toList then ownKey own raw (String.ofList name) maxLength
    else if isContractSpace space then .error (.namespaceViolation own raw)
    else .error (.script (.separatorInKey raw))

/-! ## Reading and writing through a view -/

/-- Changes a view, or refuses. -/
abbrev Viewing := EStateM ContractError View

/-- Part of an access that does not change the view. -/
def Viewing.ofExcept {α : Type} (x : Except ContractError α) : Viewing α := fun view =>
  match x with
  | .ok a => .ok a view
  | .error e => .error e view

namespace Access

/-- The bytes of a key; the view does `record` committed bytes. -/
def readThrough (entries : Committed) (key : StateKey) : Viewing (Option (List UInt8)) :=
  fun view =>
    match view.known? key with
    | some bytes => .ok bytes view
    | none => .ok entries[key]? (view.record key entries[key]?)

/-- The value of a script's key, `null` when there is none. -/
def get (entries : Committed) (limits : StateLimits) (own : Namespace) (raw : String) :
    Viewing Value := do
  let key ← Viewing.ofExcept (resolveKey own raw limits.maxKeyLength.toNat)
  match ← readThrough entries key with
  | some bytes => Viewing.ofExcept (decodeValue key bytes)
  | none => return .null

/-- A key may be written if it is pending already or fewer than `maxWrites` are, else
`exhausted .stateWrites`. -/
def checkWriteCount (limits : StateLimits) (key : StateKey) : Viewing Unit := fun view =>
  if view.writes.contains key then .ok () view
  else if view.writes.size < limits.maxWrites.toNat then .ok () view
  else
    .error (.exhausted .stateWrites (UInt64.ofNat (view.writes.size + 1)) limits.maxWrites)
      view

/-- Writes a value under a script's key and tells its stored size. -/
def set (limits : StateLimits) (own : Namespace) (raw : String) (value : Value) :
    Viewing Nat := do
  let key ← Viewing.ofExcept (resolveKey own raw limits.maxKeyLength.toNat)
  let bytes ← Viewing.ofExcept ((encodeValue value limits.maxValueSize.toNat).mapError .script)
  checkWriteCount limits key
  modify (·.put key bytes)
  return bytes.length

/-- Deletes a script's key. -/
def delete (limits : StateLimits) (own : Namespace) (raw : String) : Viewing Unit := do
  let key ← Viewing.ofExcept (resolveKey own raw limits.maxKeyLength.toNat)
  checkWriteCount limits key
  modify (·.delete key)

/-! ## Commit -/

/-- The first key of `reads` that no longer holds what the view has seen. -/
def staleRead? (entries : Committed) (reads : ReadSet) : Option StateKey :=
  (reads.toList.find? fun (key, seen) => entries[key]? ≠ seen).map Prod.fst

/-- Commits the pending writes of a view whose reads still hold, else `stateConflict`;
tells what was written.  A view that is `readOnly` is not committed. -/
def commit (store : Store) (view : View) : Except ContractError (Store × WriteSet) :=
  if view.readOnly then
    .error (.invariantViolated "read-only state view cannot be committed")
  else
    match staleRead? store.entries view.reads with
    | some key => .error (.stateConflict key.qualified)
    | none =>
      if view.writes.isEmpty then .ok (store, view.writes)
      else
        match store.commit view.writes with
        | .ok store => .ok (store, view.writes)
        | .error e => .error (.state e)

end Access

end LedgerScript
