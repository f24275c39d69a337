import LedgerScript.Proofs.Json.Containers
import LedgerScript.Wire.Code

/-!
# Code records that come back

`Sink.memory` refuses nothing, so that `Document.writeTo` ends there with the bytes of
the document (`Json.Document.toBytes_eq`).  `CodeRecord.encode` therefore never fails, and
its bytes decode to the record (`CodeRecord.decode_bytes`).
-/

namespace LedgerScript

open Json (Takes Ended)
open Text (encoded)

namespace Json

/-- `x` adds the characters `cs` to the bytes in memory and does not fail. -/
def Adds (x : EStateM String (List UInt8) Unit) (cs : List Char) : Prop :=
  ∀ taken, x taken = .ok () (taken ++ encoded cs)

theorem adds_send (cs : List Char) : Adds (Sink.memory.send cs) cs := by
  intro taken
  unfold Sink.send
  rw [Text.utf8_ofList]
  rfl

theorem Adds.seq {x y : EStateM String (List UInt8) Unit} {cs ds : List Char}
    (hx : Adds x cs) (hy : Adds y ds) : Adds (do x; y) (cs ++ ds) := by
  intro taken
  have second := hy (taken ++ encoded cs)
  change EStateM.bind x (fun _ => y) taken = _
  unfold EStateM.bind
  rw [hx taken, Text.encoded_append, ← List.append_assoc]
  exact second

namespace Document

mutual

/-- Written to memory, a document adds `compact`. -/
theorem adds_writeTo : (d : Document) → Adds (d.writeTo .memory) d.compact
  | null => adds_send _
  | bool _ => adds_send _
  | int _ => adds_send _
  | str _ => adds_send _
  | list items => (adds_send ['[']).seq ((adds_writeItemsTo items).seq (adds_send _))
  | object fields => (adds_send ['\x7b']).seq ((adds_writeFieldsTo fields).seq (adds_send _))

theorem adds_writeItemsTo : (items : List Document) →
    Adds (writeItemsTo .memory items) (compactItems items)
  | [] => fun taken => by simp [writeItemsTo, compactItems, pure, EStateM.pure]
  | [item] => adds_writeTo item
  | item :: next :: rest =>
    (adds_writeTo item).seq ((adds_send [',']).seq (adds_writeItemsTo (next :: rest)))

theorem adds_writeFieldsTo : (fields : List (String × Document)) →
    Adds (writeFieldsTo .memory fields) (compactFields fields)
  | [] => fun taken => by simp [writeFieldsTo, compactFields, pure, EStateM.pure]
  | [(key, value)] =>
    (adds_send (string key)).seq ((adds_send [':']).seq (adds_writeTo value))
  | (key, value) :: next :: rest => by
    have pair := (adds_send [':']).seq ((adds_writeTo value).seq
      ((adds_send [',']).seq (adds_writeFieldsTo (next :: rest))))
    have whole := (adds_send (string key)).seq pair
    simpa [writeFieldsTo, compactFields] using whole

end

/-- `toBytes` gives the bytes of the text of a document, and does not fail. -/
theorem toBytes_eq (d : Document) : d.toBytes = .ok (Text.utf8 d.text) := by
  unfold toBytes
  rw [adds_writeTo d [], Document.text, Text.utf8_ofList]
  rfl

end Document

end Json

namespace CodeRecord

/-- The bytes of the stored form. -/
def bytes (c : CodeRecord) : List UInt8 :=
  Text.utf8 c.document.text

/-- `encode` does not fail: every code record has a stored form. -/
theorem encode_eq_ok (c : CodeRecord) : encode c = .ok c.bytes :=
  c.document.toBytes_eq

/-- The fields of the stored form, between its braces. -/
def fieldBytes (c : CodeRecord) : List UInt8 :=
  encoded (Json.string "engine") ++ 0x3a :: (encoded (Json.string c.language) ++
    ((0x2c :: encoded (Json.string "code")) ++ 0x3a :: (encoded (Json.string c.source) ++ [])))

theorem bytes_eq (c : CodeRecord) : c.bytes = 0x7b :: (c.fieldBytes ++ [0x7d]) := by
  unfold bytes document fieldBytes
  rw [Json.Document.text, Text.utf8_ofList]
  simp [Json.Document.compact, Json.Document.compactFields, Text.utf8EncodeChar_of_le]

theorem two_le_length (c : CodeRecord) : 2 ≤ c.fieldBytes.length := by
  unfold fieldBytes
  simp only [Json.encoded_string, List.length_append, List.length_cons]
  omega

/-- `record` reads the fields in their order, up to the closing brace. -/
theorem takes_fields (c : CodeRecord) (room : Nat) {n : Nat} (enough : 2 < n) :
    Takes (Json.Closed 0x7d) (record.fromObject room {} true n) c.fieldBytes
      ⟨some c.language, some c.source⟩ := by
  obtain ⟨n, rfl⟩ : ∃ m, n = m + 1 + 1 + 1 := ⟨n - 3, by omega⟩
  have language := (Json.takes_readString (fun _ => True) c.language).map
    fun s => ({ language := some s } : Draft)
  have source := (Json.takes_readString (fun _ => True) c.source).map
    fun s => ({ language := some c.language, source := some s } : Draft)
  refine Json.Record.takes_field (Json.takes_firstKey "engine" Json.blank_nil) rfl rfl language ?_
    fun _ _ => trivial
  exact Json.Record.takes_field (Json.takes_nextKey "code" Json.blank_nil) rfl rfl source
    (Json.Record.takes_noField Json.blank_nil) fun _ _ => trivial

/-- `decode` gives a code record back from its stored form. -/
theorem decode_bytes (c : CodeRecord) : decode c.bytes = .ok c := by
  have fields : ∀ n, c.fieldBytes.length < n →
      Takes (Json.Closed 0x7d) (record.fromObject 126 record.start true n) c.fieldBytes
        ⟨some c.language, some c.source⟩ :=
    fun n enough => c.takes_fields 126 (Nat.lt_of_le_of_lt c.two_le_length enough)
  refine Json.decodeBytes_of_takes ?_
  rw [bytes_eq]
  exact Json.Record.takes_read fields rfl

end CodeRecord

end LedgerScript
