import LedgerScript.Proofs.Json.Containers
import LedgerScript.State.Access
import LedgerScript.Value.Json

/-!
# Values that come back

A value whose maps are sorted comes back from its canonical text, as deep as
documents may nest (`Value.ofJson_canonical`), so what is stored can be read
again (`decodeValue_canonical`).
-/

namespace LedgerScript

open Json (Takes Ended Opens FieldPart)
open Text (encoded numeral)

/-! ## Sorted entries -/

namespace Entries

variable {α : Type}

theorem put_of_forall_lt {entries : Entries α} {key : String} (value : α)
    (h : ∀ e ∈ entries, e.1 < key) : entries.put key value = entries ++ [(key, value)] := by
  induction entries with
  | nil => rfl
  | cons e rest ih =>
    obtain ⟨first, others⟩ := List.forall_mem_cons.1 h
    have ne : key ≠ e.1 := fun eq => String.lt_irrefl _ (eq ▸ first)
    have nlt : ¬ key < e.1 := fun lt => String.lt_irrefl _ (String.lt_trans lt first)
    unfold put
    rw [if_neg ne, if_neg nlt, ih others]
    rfl

/-- `ofList` puts entries in the order of their keys back as they are. -/
theorem ofList_of_sorted {entries : Entries α} (h : entries.Sorted) : ofList entries = entries := by
  suffices ∀ before rest : Entries α, (before ++ rest).Sorted →
      rest.foldl (fun entries pair => entries.put pair.1 pair.2) before = before ++ rest from
    this [] entries h
  -- What has been put so far is `before`, and everything to come belongs behind it.
  intro before rest
  induction rest generalizing before with
  | nil => intro _; exact (List.append_nil before).symm
  | cons e rest ih =>
    intro sorted
    have below : ∀ b ∈ before, b.1 < e.1 := fun b mem =>
      (List.pairwise_append.1 sorted).2.2 b mem e List.mem_cons_self
    have split : before ++ e :: rest = (before ++ [(e.1, e.2)]) ++ rest := by simp
    have kept := ih _ (split ▸ sorted)
    rw [← put_of_forall_lt e.2 below] at kept
    exact kept.trans (by rw [put_of_forall_lt e.2 below, ← split])

end Entries

namespace Value

/-! ## Canonical bytes -/

/-- The bytes of the canonical text. -/
def bytes (v : Value) : List UInt8 := encoded v.document.compact

theorem utf8_canonical (v : Value) : Text.utf8 v.canonical = v.bytes :=
  Text.utf8_ofList _

theorem documentsOfItems_eq (items : List Value) :
    documentsOfItems items = items.map document := by
  induction items with
  | nil => rfl
  | cons item rest ih => rw [documentsOfItems, ih]; rfl

theorem documentsOfEntries_eq (entries : List (String × Value)) :
    documentsOfEntries entries = entries.map fun e => (e.1, e.2.document) := by
  induction entries with
  | nil => rfl
  | cons e rest ih => rw [documentsOfEntries, ih]; rfl

theorem encoded_compactItems (items : List Json.Document) :
    encoded (Json.Document.compactItems items) =
      (items.flatMap fun item => 0x2c :: encoded item.compact).drop 1 := by
  induction items with
  | nil => rfl
  | cons item rest ih =>
    cases rest with
    | nil =>
      rw [Json.Document.compactItems]
      simp
    | cons next rest =>
      rw [Json.Document.compactItems, Text.encoded_append, Text.encoded_cons, ih]
      · simp [Text.utf8EncodeChar_of_le]
      · exact List.cons_ne_nil next rest

theorem encoded_compactFields (fields : List (String × Json.Document)) :
    encoded (Json.Document.compactFields fields) =
      (fields.flatMap fun field =>
        0x2c :: (encoded (Json.string field.1) ++ 0x3a :: encoded field.2.compact)).drop 1 := by
  induction fields with
  | nil => rfl
  | cons field rest ih =>
    obtain ⟨key, value⟩ := field
    cases rest with
    | nil =>
      rw [Json.Document.compactFields]
      simp [Text.utf8EncodeChar_of_le]
    | cons next rest =>
      rw [Json.Document.compactFields]
      · simp only [Text.encoded_append, Text.encoded_cons, ih]
        simp [Text.utf8EncodeChar_of_le]
      · exact List.cons_ne_nil next rest

/-- An item as it is written and read. -/
def part (v : Value) : List UInt8 × Option Value := (v.bytes, some v)

/-- An entry as it is written and read. -/
def fieldPart (e : String × Value) : FieldPart (Option Value) := ⟨e.1, e.2.bytes, some e.2⟩

theorem bytes_list (items : List Value) :
    (list items).bytes =
      0x5b :: (((items.map part).flatMap fun part => 0x2c :: part.1).drop 1 ++ [0x5d]) := by
  unfold bytes document
  rw [Json.Document.compact, List.cons_append, Text.encoded_cons, Text.encoded_append,
    encoded_compactItems, documentsOfItems_eq, List.flatMap_map, List.flatMap_map]
  simp [Text.utf8EncodeChar_of_le, part, bytes]

theorem bytes_map (entries : List (String × Value)) :
    (map entries).bytes =
      0x7b :: (((entries.map fieldPart).flatMap fun part => 0x2c :: part.written).drop 1 ++
        [0x7d]) := by
  unfold bytes document
  rw [Json.Document.compact, List.cons_append, Text.encoded_cons, Text.encoded_append,
    encoded_compactFields, documentsOfEntries_eq, List.flatMap_map, List.flatMap_map]
  simp [Text.utf8EncodeChar_of_le, fieldPart, FieldPart.written, bytes]

/-! ## Reading -/

section

variable {items entries : Json.Read (Option Value)}

theorem takes_natural (n : Nat) (fits : n ≤ Json.maxWord) :
    Takes Ended (readWith items entries) (numeral n) (ofNumber? (.natural n)) := by
  have read := (Json.takes_natural fits).map ofNumber?
  obtain ⟨b, digits, eq, digit⟩ := Text.exists_digit_numeral n
  have apart : ∀ c : UInt8, ¬ Text.IsDigit c → b ≠ c := by
    rintro c other rfl
    exact other digit
  rw [eq] at read ⊢
  refine .peekValue (Json.isSpace_of_isDigit digit) ?_
  rw [if_neg (apart _ (by decide)), if_neg (apart _ (by decide)), if_neg (apart _ (by decide)),
    if_neg (apart _ (by decide)), if_pos (by rw [Json.digit?_of_isDigit digit]; rfl)]
  exact read

theorem takes_negative {n : Nat} (nonzero : 0 < n) (fits : n ≤ 0x8000000000000000) :
    Takes Ended (readWith items entries) (0x2d :: numeral n) (ofNumber? (.negative (-n))) :=
  .peekValue rfl (((Json.takes_negative nonzero fits).map ofNumber?).skip 0x2d)

/-- `readWith` takes an `Int64` as it is written. -/
theorem takes_int (n : Int64) :
    Takes Ended (readWith items entries) (int n).bytes (some (int n)) := by
  have lower := n.le_toInt
  have upper := n.toInt_lt
  have back : Int64.ofInt n.toInt = n := Int64.ofInt_toInt n
  unfold bytes document
  rw [Json.Document.compact]
  cases hn : n.toInt with
  | ofNat k =>
    rw [hn] at upper back
    have below : k < 0x8000000000000000 := Int.ofNat_lt.1 upper
    have value : ofNumber? (.natural k) = some (int n) := by
      rw [← back]
      exact if_pos below
    have word : k ≤ Json.maxWord := Nat.le_trans (Nat.le_of_lt below) (by decide)
    rw [Json.digits_ofNat, ← value]
    exact takes_natural k word
  | negSucc k =>
    rw [hn] at lower back
    have below : k + 1 ≤ 0x8000000000000000 := by omega
    have value : ofNumber? (.negative (-(k + 1 : Nat))) = some (int n) := by
      rw [← back]
      rfl
    rw [Json.digits_negSucc, ← value]
    exact takes_negative (Nat.succ_pos k) below

theorem takes_truth (b : Bool) :
    Takes Ended (readWith items entries) (bool b).bytes (some (bool b)) := by
  cases b with
  | true =>
    have rest := (Json.takes_literal Ended [0x72, 0x75, 0x65]).map
      fun _ => some (bool true)
    exact .peekValue (rfl : Json.isSpace 0x74 = false) (rest.skip 0x74)
  | false =>
    have rest := (Json.takes_literal Ended [0x61, 0x6c, 0x73, 0x65]).map
      fun _ => some (bool false)
    exact .peekValue (rfl : Json.isSpace 0x66 = false) (rest.skip 0x66)

theorem takes_null : Takes Ended (readWith items entries) null.bytes (some null) := by
  have rest := (Json.takes_literal Ended [0x75, 0x6c, 0x6c]).map fun _ => some null
  exact .peekValue (rfl : Json.isSpace 0x6e = false) (rest.skip 0x6e)

theorem takes_str (s : String) :
    Takes Ended (readWith items entries) (str s).bytes (some (str s)) := by
  have read := ((Json.takes_stringRest Ended s).map fun s => some (str s)).skip 0x22
  unfold bytes document
  rw [Json.Document.compact, Json.encoded_string]
  exact .peekValue rfl read

end

/-- The canonical `bytes` of a value begin like a value. -/
theorem opens_bytes (v : Value) : Opens v.bytes := by
  cases v with
  | null => exact ⟨0x6e, _, rfl, rfl, by decide⟩
  | bool b =>
    cases b
    · exact ⟨0x66, _, rfl, rfl, by decide⟩
    · exact ⟨0x74, _, rfl, rfl, by decide⟩
  | int n =>
    unfold bytes document
    rw [Json.Document.compact]
    exact Json.opens_digits n.toInt
  | str s => exact Json.opens_string s
  | list items =>
    rw [bytes_list]
    exact ⟨0x5b, _, rfl, rfl, by decide⟩
  | map entries =>
    rw [bytes_map]
    exact ⟨0x7b, _, rfl, rfl, by decide⟩

theorem ofItems?_some (items : List Value) : ofItems? (items.map some) = some (list items) := by
  have all : (items.map some).mapM id = some items := by
    induction items with
    | nil => rfl
    | cons item rest ih => simp [List.mapM_cons, ih]
  unfold ofItems?
  rw [all]
  rfl

theorem ofEntries?_some {entries : List (String × Value)} (sorted : Entries.Sorted entries) :
    ofEntries? (entries.map fun e => (e.1, some e.2)) = some (map entries) := by
  have all : (entries.map fun e => (e.1, some e.2)).mapM
      (fun e : String × Option Value => e.2.map (Prod.mk e.1)) = some entries := by
    clear sorted
    induction entries with
    | nil => rfl
    | cons e rest ih => simp [List.mapM_cons, ih]
  unfold ofEntries?
  dsimp only
  rw [all]
  dsimp only [Option.map_some]
  rw [Entries.ofList_of_sorted sorted]

/-- Parts and the commas between them are no fewer bytes than parts. -/
theorem length_le_length_parts {α : Type} {parts : List α} {f : α → List UInt8}
    (each : ∀ part ∈ parts, f part ≠ []) :
    parts.length ≤ ((parts.flatMap fun part => 0x2c :: f part).drop 1).length := by
  have twice : 2 * parts.length ≤ (parts.flatMap fun part => 0x2c :: f part).length := by
    induction parts with
    | nil => exact Nat.le_refl 0
    | cons part rest ih =>
      obtain ⟨first, others⟩ := List.forall_mem_cons.1 each
      have some := List.length_pos_iff.2 first
      have more := ih others
      rw [List.flatMap_cons, List.length_append, List.length_cons, List.length_cons]
      omega
  rw [List.length_drop]
  omega

theorem takes_list {items : List Value} {room : Nat}
    (each : ∀ p ∈ items.map part, Takes Ended (readAny room) p.1 p.2 ∧ Opens p.1) :
    Takes Ended (readAny (room + 1)) (list items).bytes (some (list items)) := by
  have nonempty : ∀ p ∈ items.map part, p.1 ≠ [] := fun p mem => (each p mem).2.ne_nil
  have inside : Takes (Json.Closed 0x5d)
      (do Json.itemsFrom (readAny room) true (← Json.turns))
      (((items.map part).flatMap fun part => 0x2c :: part.1).drop 1) (items.map some) := by
    refine Json.takes_turns fun n enough => ?_
    have read := Json.takes_itemsFrom each (n := n)
      (Nat.lt_of_le_of_lt (length_le_length_parts nonempty) enough)
    rw [List.map_map] at read
    exact read
  have whole := (inside.within (Json.takes_endList Ended)).map ofItems?
  rw [ofItems?_some] at whole
  rw [bytes_list]
  exact .peekValue rfl (whole.skip 0x5b)

theorem takes_map {entries : List (String × Value)} (sorted : Entries.Sorted entries)
    {room : Nat} (each : ∀ p ∈ entries.map fieldPart, Takes Ended (readAny room) p.bytes p.value) :
    Takes Ended (readAny (room + 1)) (map entries).bytes (some (map entries)) := by
  have nonempty : ∀ p ∈ entries.map fieldPart, p.written ≠ [] := by
    intro p _ eq
    rw [FieldPart.written, Json.encoded_string] at eq
    cases eq
  have inside : Takes (Json.Closed 0x7d)
      (do Json.fieldsFrom (readAny room) true (← Json.turns))
      (((entries.map fieldPart).flatMap fun part => 0x2c :: part.written).drop 1)
      (entries.map fun e => (e.1, some e.2)) := by
    refine Json.takes_turns fun n enough => ?_
    have read := Json.takes_fieldsFrom each (n := n)
      (Nat.lt_of_le_of_lt (length_le_length_parts nonempty) enough)
    rw [List.map_map] at read
    exact read
  have whole := (inside.within (Json.takes_endObject Ended)).map ofEntries?
  rw [ofEntries?_some sorted] at whole
  rw [bytes_map]
  exact .peekValue rfl (whole.skip 0x7b)

mutual

/-- `readAny` takes a `Sorted` value as it is written canonically, if there is room for
its `depth`. -/
theorem takes_readAny : ∀ (v : Value) {room : Nat}, v.Sorted → v.depth ≤ room →
    Takes Ended (readAny room) v.bytes (some v)
  | null, room, _, _ => by cases room <;> exact takes_null
  | bool b, room, _, _ => by cases room <;> exact takes_truth b
  | int n, room, _, _ => by cases room <;> exact takes_int n
  | str s, room, _, _ => by cases room <;> exact takes_str s
  | list items, room, sorted, deep => by
    rw [depth] at deep
    obtain ⟨room, rfl⟩ : ∃ r, room = r + 1 := ⟨room - 1, by omega⟩
    exact takes_list (takes_partsOfItems items sorted (by omega))
  | map entries, room, sorted, deep => by
    rw [depth] at deep
    obtain ⟨room, rfl⟩ : ∃ r, room = r + 1 := ⟨room - 1, by omega⟩
    exact takes_map sorted.1 (takes_partsOfEntries entries sorted.2 (by omega))

theorem takes_partsOfItems : ∀ (items : List Value) {room : Nat}, SortedItems items →
    depthOfItems items ≤ room →
    ∀ p ∈ items.map part, Takes Ended (readAny room) p.1 p.2 ∧ Opens p.1
  | [], _, _, _ => List.forall_mem_nil _
  | item :: rest, room, sorted, deep => by
    rw [depthOfItems] at deep
    have first : Takes Ended (readAny room) item.bytes (some item) :=
      takes_readAny item sorted.1 (by omega)
    have others : ∀ p ∈ rest.map part, Takes Ended (readAny room) p.1 p.2 ∧ Opens p.1 :=
      takes_partsOfItems rest sorted.2 (by omega)
    exact List.forall_mem_cons.2 ⟨⟨first, item.opens_bytes⟩, others⟩

theorem takes_partsOfEntries : ∀ (entries : List (String × Value)) {room : Nat},
    SortedEntries entries → depthOfEntries entries ≤ room →
    ∀ p ∈ entries.map fieldPart, Takes Ended (readAny room) p.bytes p.value
  | [], _, _, _ => List.forall_mem_nil _
  | (key, value) :: rest, room, sorted, deep => by
    rw [depthOfEntries] at deep
    have first : Takes Ended (readAny room) value.bytes (some value) :=
      takes_readAny value sorted.1 (by omega)
    have others : ∀ p ∈ rest.map fieldPart, Takes Ended (readAny room) p.bytes p.value :=
      takes_partsOfEntries rest sorted.2 (by omega)
    exact List.forall_mem_cons.2 ⟨first, others⟩

end

/-- `ofJson` gives a `Sorted` value back from its `canonical` text. -/
theorem ofJson_canonical {v : Value} (sorted : v.Sorted) (deep : v.depth ≤ Json.maxNesting) :
    ofJson v.canonical = .ok v := by
  have taken := takes_readAny v sorted deep
  unfold ofJson Json.decode
  rw [utf8_canonical]
  refine Json.decodeBytes_of_takes fun rest place ended => ?_
  obtain ⟨next, ran⟩ := taken rest place ended
  refine ⟨next, ?_⟩
  unfold read
  rw [bind_of_ok ran]
  rfl

end Value

/-- What `encodeValue` accepts nests at most `maxValueDepth` deep, and is stored as its
canonical bytes. -/
theorem encodeValue_eq_ok {v : Value} {maxSize : Nat} {bytes : List UInt8}
    (h : encodeValue v maxSize = .ok bytes) :
    v.depth ≤ maxValueDepth ∧ bytes = Text.utf8 v.canonical ∧ bytes.length ≤ maxSize := by
  unfold encodeValue checkDepth at h
  split at h
  · rename_i deep
    change (if (Text.utf8 v.canonical).length ≤ maxSize then _ else _) = _ at h
    split at h <;> cases h
    rename_i small
    exact ⟨deep, rfl, small⟩
  · cases h

/-- `decodeValue` gives a `Sorted` value back from what is stored of it. -/
theorem decodeValue_canonical {v : Value} (sorted : v.Sorted) (deep : v.depth ≤ maxValueDepth)
    (key : StateKey) : decodeValue key (Text.utf8 v.canonical) = .ok v := by
  have back := Value.ofJson_canonical sorted (Nat.le_trans deep (by decide))
  unfold decodeValue
  rw [Text.ofUtf8_utf8]
  dsimp only
  rw [back]

end LedgerScript
