import LedgerScript.Json.Decode
import LedgerScript.Json.Document

/-!
# Deployed code as documents

The source of a deployed contract is stored together with the name of the
language that it is written in.
-/

namespace LedgerScript

open Json (Document Record required)

/-- A deployed source and its language. -/
structure CodeRecord where
  language : String
  source : String
  deriving DecidableEq, Repr

namespace CodeRecord

/-- The fields of a code record that have been read. -/
structure Draft where
  language : Option String := none
  source : Option String := none

/-- How a code record is read. -/
def record : Record Draft CodeRecord where
  type := "ContractCode"
  fields := [
    .of "engine" (fun _ => Json.readString) Draft.language
      fun d s => { d with language := some s },
    .of "code" (fun _ => Json.readString) Draft.source fun d s => { d with source := some s }]
  start := {}
  finish d := do
    let language ← required "engine" d.language
    let source ← required "code" d.source
    return ⟨language, source⟩

/-- A code record as a document. -/
def document (c : CodeRecord) : Document :=
  .object [("engine", .str c.language), ("code", .str c.source)]

/-- The stored form of a code record: its `document` in bytes, unless it cannot be
written. -/
def encode (c : CodeRecord) : Except String (List UInt8) :=
  c.document.toBytes

/-- The code record of a stored form. -/
def decode (bytes : List UInt8) : Except Json.Error CodeRecord :=
  Json.decodeBytes record.read bytes

end CodeRecord

end LedgerScript
