import LedgerScript.Machine.Builtin
import LedgerScript.Proofs.Value.RoundTrip
import LedgerScript.Proofs.Value.Sorted

/-!
# Values and their texts

A value has one canonical text and no other value has the same, however deep the
two nest (`Value.canonical_injective`).  Values that may be stored or encoded come
back from it, and so does every value that some text says.  A value here is one with
its keys in order (`Value.Sorted`), as all that scripts and texts make are.  Main
statement: `Value.codec_lossless`.
-/

namespace LedgerScript

namespace Value

/-- Different `Sorted` values have different `canonical` texts. -/
theorem canonical_injective {v w : Value} (hv : v.Sorted) (hw : w.Sorted)
    (same : v.canonical = w.canonical) : v = w := by
  have bytes : v.bytes = w.bytes := by rw [← utf8_canonical, ← utf8_canonical, same]
  -- with room for both, a reader takes the same bytes as the one and as the other
  obtain ⟨next, first⟩ :=
    takes_readAny v hv (Nat.le_max_left v.depth w.depth) [] .start Json.ended_nil
  obtain ⟨next', second⟩ :=
    takes_readAny w hw (Nat.le_max_right v.depth w.depth) [] .start Json.ended_nil
  rw [bytes, second] at first
  cases first
  rfl

/-- `ofJson` reads the `canonical` text of what it has read again. -/
theorem ofJson_canonical_of_ofJson {text : String} {w : Value} (read : ofJson text = .ok w) :
    ofJson w.canonical = .ok w :=
  ofJson_canonical (sorted_of_ofJson read) (depth_le_of_ofJson read)

end Value

namespace Builtin

theorem encoded_eq_ok_iff {v text : Value} :
    encoded v = .ok text ↔ v.depth ≤ maxValueDepth ∧ text = .str v.canonical := by
  unfold encoded checkDepth
  split
  · rename_i deep
    constructor
    · intro h
      cases h
      exact ⟨deep, rfl⟩
    · rintro ⟨-, rfl⟩
      rfl
  · rename_i deeper
    constructor
    · intro h
      cases h
    · exact fun h => absurd h.1 deeper

theorem decoded_canonical {v : Value} (sorted : v.Sorted) (deep : v.depth ≤ maxValueDepth) :
    decoded (.str v.canonical) = .ok v := by
  have back := Value.ofJson_canonical sorted (Nat.le_trans deep (by decide))
  unfold decoded checkDepth
  dsimp only
  rw [back]
  dsimp only
  rw [if_pos deep]
  rfl

end Builtin

/-- **Coding loses nothing and is canonical.**  For `Sorted` values: `decodeValue` gives
back what `encodeValue` accepts; `jsonEncode` accepts exactly the values that nest at most
64 deep, and `jsonDecode` gives them back; and no two values have the same `canonical`
text.  Whatever `ofJson` reads from a text, it reads from the canonical text of that as
well. -/
theorem Value.codec_lossless :
    (∀ v : Value, v.Sorted → ∀ (maxSize : Nat) (key : StateKey) (bytes : List UInt8),
      encodeValue v maxSize = .ok bytes → decodeValue key bytes = .ok v) ∧
    (∀ v : Value, v.Sorted →
      ((∃ text, Builtin.jsonEncode.apply [v] = .ok text) ↔ v.depth ≤ 64) ∧
      ∀ text, Builtin.jsonEncode.apply [v] = .ok text → Builtin.jsonDecode.apply [text] = .ok v) ∧
    (∀ v w : Value, v.Sorted → w.Sorted → v.canonical = w.canonical → v = w) ∧
    ∀ (text : String) (w : Value), Value.ofJson text = .ok w →
      Value.ofJson w.canonical = .ok w := by
  refine ⟨fun v sorted maxSize key bytes stored => ?_, fun v sorted => ⟨⟨?_, ?_⟩, ?_⟩,
    fun v w hv hw => Value.canonical_injective hv hw,
    fun text w => Value.ofJson_canonical_of_ofJson⟩
  · obtain ⟨deep, rfl, -⟩ := encodeValue_eq_ok stored
    exact decodeValue_canonical sorted deep key
  · rintro ⟨text, encoded⟩
    exact (Builtin.encoded_eq_ok_iff.1 encoded).1
  · exact fun deep => ⟨.str v.canonical, Builtin.encoded_eq_ok_iff.2 ⟨deep, rfl⟩⟩
  · intro text encoded
    obtain ⟨deep, rfl⟩ := Builtin.encoded_eq_ok_iff.1 encoded
    exact Builtin.decoded_canonical sorted deep

namespace CodecSample

/-- Containers inside one another, an empty one of each sort, and a key that has to
be escaped. -/
def sample : Value :=
  .map [("\"", .null), ("a", .list [.int (-9223372036854775808), .list [], .map []])]

/-- The same with the empty containers the other way round. -/
def other : Value :=
  .map [("\"", .null), ("a", .list [.int (-9223372036854775808), .map [], .list []])]

theorem sorted_sample : sample.Sorted :=
  ⟨by unfold Entries.Sorted; decide, trivial,
    ⟨⟨trivial, trivial, ⟨List.Pairwise.nil, trivial⟩, trivial⟩, trivial⟩⟩

theorem sorted_other : other.Sorted :=
  ⟨by unfold Entries.Sorted; decide, trivial,
    ⟨⟨trivial, ⟨List.Pairwise.nil, trivial⟩, trivial, trivial⟩, trivial⟩⟩

/-- A text that says the entry of a key twice. -/
def doubled : String := " \x7b\"k\": [1], \"k\": null\x7d "

/-- `codec_lossless` for the sample, which is stored in 44 bytes and comes back, from a
script's text, too; the other value has another text; and the text of a doubled entry says
the last one. -/
theorem sample_comes_back :
    (∃ bytes, encodeValue sample 44 = .ok bytes ∧ decodeValue ⟨"", "k"⟩ bytes = .ok sample) ∧
    (∃ text, Builtin.jsonEncode.apply [sample] = .ok text ∧
      Builtin.jsonDecode.apply [text] = .ok sample) ∧
    sample.canonical ≠ other.canonical ∧
    Value.ofJson doubled = .ok (.map [("k", .null)]) ∧
    Value.ofJson (Value.map [("k", .null)]).canonical = .ok (.map [("k", .null)]) := by
  obtain ⟨stored, encoded, injective, settled⟩ := Value.codec_lossless
  have accepted : (encodeValue sample 44).toOption.any (fun _ => true) = true := by
    decide +kernel
  obtain ⟨bytes, eq, -⟩ := exists_ok_of_any accepted
  obtain ⟨text, eq'⟩ := (encoded sample sorted_sample).1.2 (by decide)
  have read : Value.ofJson doubled = .ok (.map [("k", .null)]) := by rfl
  refine ⟨⟨bytes, eq, stored sample sorted_sample 44 ⟨"", "k"⟩ bytes eq⟩,
    ⟨text, eq', (encoded sample sorted_sample).2 text eq'⟩, fun same => ?_, read,
    settled _ _ read⟩
  exact absurd (injective sample other sorted_sample sorted_other same) (by decide)

end CodecSample

end LedgerScript
