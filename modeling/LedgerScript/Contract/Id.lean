import LedgerScript.Digest.Sha256
import LedgerScript.Text.Hex
import LedgerScript.Text.Utf8

/-!
# Contract identities

A contract is known by the digest of its source, so one source is one
contract.  The digits of the digest are also the name of the namespace that
the contract owns.
-/

namespace LedgerScript

/-- An identity: thirty-two bytes. -/
structure ContractId where
  bytes : List UInt8
  length_bytes : bytes.length = 32

namespace ContractId

instance : DecidableEq ContractId := fun a b =>
  if h : a.bytes = b.bytes then
    .isTrue (by cases a; cases b; cases h; rfl)
  else .isFalse fun e => h (congrArg bytes e)

/-- The identity of a source: its `sha256`. -/
def ofSource (source : List UInt8) : ContractId :=
  ⟨sha256 source, length_sha256 source⟩

/-- The identity in lower-case digits. -/
def hex (id : ContractId) : String :=
  Text.hex id.bytes

/-- The identity of sixty-four digits, of either case. -/
def ofHex (digits : String) : Except Text.HexFault ContractId :=
  match h : Text.readHex 32 (Text.utf8 digits) with
  | .error fault => .error fault
  | .ok bytes => .ok ⟨bytes, by
      unfold Text.readHex at h
      split at h
      · contradiction
      · split at h
        · next count => rw [Text.Hex.length_readPairs h, count]
        · contradiction⟩

end ContractId

/-- The part of a state that one contract owns, by its name. -/
abbrev Namespace := String

/-- The namespace of a contract is named by the digits of its identity. -/
def ContractId.space (id : ContractId) : Namespace := id.hex

end LedgerScript
