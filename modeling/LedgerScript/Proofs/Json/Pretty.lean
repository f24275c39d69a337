import LedgerScript.Proofs.Json.Containers

/-!
# Documents over several lines

A reader reads a document if it takes the document as it is written over several lines,
at any level and with blanks in front of it (`Reads`).  Readers of scalars, lists and
records read what they are for, each from what its own readers read, and a whole document
decodes to what is read of it (`decode_prettyText`).
-/

namespace LedgerScript.Json

open Document (newline prettyItems prettyFields)
open Text (encoded numeral)

variable {α δ : Type}

/-- Wherever `d` stands in a document over several lines, `x` takes it and returns `a`. -/
def Reads (x : Read α) (d : Document) (a : α) : Prop :=
  ∀ (level : Nat) (blanks : List UInt8), Blank blanks →
    Takes Ended x (blanks ++ encoded (d.pretty level)) a

namespace Reads

variable {x : Read α} {d : Document} {a : α}

theorem of_takes (skips : SkipsBlanks x)
    (h : ∀ level, Takes Ended x (encoded (d.pretty level)) a) : Reads x d a :=
  fun level _ blank => (h level).behind skips blank

/-- A field of a draft is read as its value is. -/
theorem field {value : Nat → Read α} {room : Nat} {name : String} {get : δ → Option α}
    {set : δ → α → δ} {draft : δ} (h : Reads (value room) d a) :
    Reads ((RecordField.of name value get set).read room draft) d (set draft a) :=
  fun level blanks blank => (h level blanks blank).map (set draft)

end Reads

/-! ## Scalars -/

theorem reads_string (s : String) : Reads readString (.str s) s := by
  refine .of_takes (skipsBlanks_peekValue.bind _) fun level => ?_
  rw [Document.pretty]
  exact takes_readString Ended s

theorem pretty_nat (level n : Nat) : encoded ((Document.int n).pretty level) = numeral n := by
  rw [Document.pretty]
  exact digits_ofNat n

theorem reads_word (type : String) (n : UInt64) : Reads (readWord type) (.int n.toNat) n := by
  refine .of_takes ((skipsBlanks_peekValue.bind _).bind _) fun level => ?_
  rw [pretty_nat]
  exact takes_readWord type n

theorem reads_short (n : UInt16) : Reads readShort (.int n.toNat) n := by
  refine .of_takes ((skipsBlanks_peekValue.bind _).bind _) fun level => ?_
  rw [pretty_nat]
  exact takes_readShort n

/-! ## Lines -/

theorem encoded_newline (level : Nat) :
    encoded (newline level) = 0x0a :: List.replicate (2 * level) 0x20 := by
  have spaces : ∀ n, encoded (List.replicate n ' ') = List.replicate n 0x20 := by
    intro n
    induction n with
    | zero => rfl
    | succ n ih =>
      rw [List.replicate_succ, List.replicate_succ, Text.encoded_cons, ih]
      rfl
  unfold newline
  rw [Text.encoded_cons, spaces]
  rfl

theorem blank_newline (level : Nat) : Blank (encoded (newline level)) := by
  rw [encoded_newline]
  refine List.forall_mem_cons.2 ⟨rfl, fun b mem => ?_⟩
  rw [(List.mem_replicate.1 mem).2]
  rfl

/-- A number is `Ended` where its line is. -/
theorem ended_newline (level : Nat) (rest : List UInt8) :
    Ended (encoded (newline level) ++ rest) := by
  rw [encoded_newline]
  exact ended_cons (by decide) _

theorem opens_pretty (d : Document) (level : Nat) : Opens (encoded (d.pretty level)) := by
  cases d with
  | null =>
    rw [Document.pretty]
    exact ⟨0x6e, _, rfl, rfl, by decide⟩
  | bool b =>
    rw [Document.pretty]
    cases b
    · exact ⟨0x66, _, rfl, rfl, by decide⟩
    · exact ⟨0x74, _, rfl, rfl, by decide⟩
  | int n =>
    rw [Document.pretty]
    exact opens_digits n
  | str s =>
    rw [Document.pretty]
    exact opens_string s
  | list items =>
    cases items with
    | nil => exact ⟨0x5b, _, rfl, rfl, by decide⟩
    | cons item rest => exact ⟨0x5b, _, rfl, rfl, by decide⟩
  | object fields =>
    cases fields with
    | nil => exact ⟨0x7b, _, rfl, rfl, by decide⟩
    | cons field rest => exact ⟨0x7b, _, rfl, rfl, by decide⟩

/-! ## Lists -/

theorem encoded_prettyItems_cons (level : Nat) (item next : Document) (rest : List Document) :
    encoded (prettyItems level (item :: next :: rest)) =
      encoded (item.pretty level) ++
        (0x2c :: encoded (newline level) ++ encoded (prettyItems level (next :: rest))) := by
  rw [prettyItems]
  · simp [Text.utf8EncodeChar_of_le]
  · exact List.cons_ne_nil next rest

theorem encoded_pretty_list (level : Nat) {items : List Document} (nonempty : items ≠ []) :
    encoded ((Document.list items).pretty level) =
      0x5b :: (encoded (newline (level + 1)) ++
        (encoded (prettyItems (level + 1) items) ++ encoded (newline level)) ++ [0x5d]) := by
  rw [Document.pretty]
  · simp [Text.utf8EncodeChar_of_le]
  · exact nonempty

theorem length_le_prettyItems (level : Nat) (items : List Document) :
    items.length ≤ (encoded (prettyItems level items)).length := by
  induction items with
  | nil => exact Nat.le_refl 0
  | cons item rest ih =>
    have first := List.length_pos_iff.2 (opens_pretty item level).ne_nil
    cases rest with
    | nil => exact first
    | cons next rest =>
      rw [encoded_prettyItems_cons, List.length_append, List.length_append, List.length_cons]
      omega

section

variable {write : α → Document} {values : List α}

/-- Items on lines of their own are taken one by one, up to the line on which their list
ends. -/
theorem takes_prettyItems {item : Read α} (level outer : Nat)
    (each : ∀ a ∈ values, Reads item (write a) a) (nonempty : values ≠ []) {first : Bool}
    {start : List UInt8} {n : Nat} (hstart : Takes Opens (nextItem first) start true)
    (enough : values.length < n) :
    Takes (Closed 0x5d) (itemsFrom item first n)
      (start ++ (encoded (prettyItems level (values.map write)) ++ encoded (newline outer)))
      values := by
  induction values generalizing first start n with
  | nil => exact absurd rfl nonempty
  | cons a rest ih =>
    obtain ⟨n, rfl⟩ : ∃ m, n = m + 1 := ⟨n - 1, by omega⟩
    rw [List.length_cons] at enough
    obtain ⟨own, others⟩ := List.forall_mem_cons.1 each
    have head := own level [] blank_nil
    have opens := opens_pretty (write a) level
    cases rest with
    | nil =>
      obtain ⟨n, rfl⟩ : ∃ m, n = m + 1 := ⟨n - 1, by omega⟩
      exact takes_item hstart head opens (takes_noItems (blank_newline outer))
        fun behind _ => ended_newline outer behind
    | cons b rest =>
      have tail := ih others (List.cons_ne_nil b rest)
        (takes_nextItem (blank_newline level)) (n := n) (by omega)
      have whole := takes_item hstart head opens tail fun behind _ => ended_cons (by decide) _
      rw [List.map_cons, List.map_cons, encoded_prettyItems_cons, List.append_assoc,
        List.append_assoc]
      exact whole

theorem reads_list {item : Nat → Read α} {room : Nat}
    (each : ∀ a ∈ values, Reads (item room) (write a) a) :
    Reads (readList item (room + 1)) (.list (values.map write)) values := by
  refine .of_takes (skipsBlanks_peekValue.bind _) fun level => ?_
  cases values with
  | nil =>
    refine takes_readList fun n enough => ?_
    obtain ⟨n, rfl⟩ : ∃ m, n = m + 1 := ⟨n - 1, by omega⟩
    exact takes_noItems blank_nil
  | cons a rest =>
    have nonempty : a :: rest ≠ [] := List.cons_ne_nil a rest
    have docs : (a :: rest).map write ≠ [] := List.cons_ne_nil _ _
    rw [encoded_pretty_list level docs]
    refine takes_readList fun n enough => takes_prettyItems (level + 1) level each nonempty
      (takes_firstItem (blank_newline (level + 1))) ?_
    have fewer := length_le_prettyItems (level + 1) ((a :: rest).map write)
    rw [List.length_append, List.length_append] at enough
    rw [List.length_map] at fewer
    omega

end

/-! ## Records -/

theorem encoded_prettyFields_singleton (level : Nat) (key : String) (value : Document) :
    encoded (prettyFields level [(key, value)]) =
      encoded (string key) ++ 0x3a :: ([0x20] ++ encoded (value.pretty level)) := by
  rw [prettyFields]
  simp [Text.utf8EncodeChar_of_le]

theorem encoded_prettyFields_cons (level : Nat) (key : String) (value : Document)
    (next : String × Document) (rest : List (String × Document)) :
    encoded (prettyFields level ((key, value) :: next :: rest)) =
      encoded (string key) ++ 0x3a :: ([0x20] ++ encoded (value.pretty level) ++
        (0x2c :: encoded (newline level) ++ encoded (prettyFields level (next :: rest)))) := by
  rw [prettyFields]
  · simp [Text.utf8EncodeChar_of_le]
  · exact List.cons_ne_nil next rest

theorem encoded_pretty_object (level : Nat) {fields : List (String × Document)}
    (nonempty : fields ≠ []) :
    encoded ((Document.object fields).pretty level) =
      0x7b :: (encoded (newline (level + 1)) ++
        (encoded (prettyFields (level + 1) fields) ++ encoded (newline level)) ++ [0x7d]) := by
  rw [Document.pretty]
  · simp [Text.utf8EncodeChar_of_le]
  · exact nonempty

theorem length_le_prettyFields (level : Nat) (fields : List (String × Document)) :
    fields.length ≤ (encoded (prettyFields level fields)).length := by
  induction fields with
  | nil => exact Nat.le_refl 0
  | cons field rest ih =>
    obtain ⟨key, value⟩ := field
    cases rest with
    | nil =>
      rw [encoded_prettyFields_singleton]
      simp only [List.length_append, List.length_cons, List.length_nil]
      omega
    | cons next rest =>
      rw [encoded_prettyFields_cons]
      simp only [List.length_append, List.length_cons] at ih ⊢
      omega

namespace Record

variable {r : Record δ α} {room : Nat} {fields : List (String × Document)} {draft last : δ}

/-- The fields of a document are fields of the record that `draft` does not have, and reading
them one after the other makes it `last`. -/
inductive Fills (r : Record δ α) (room : Nat) : δ → List (String × Document) → δ → Prop where
  | nil (draft : δ) : Fills r room draft [] draft
  | cons {draft next last : δ} {field : RecordField δ} {key : String} {d : Document}
      {rest : List (String × Document)} (known : r.fields.find? (·.name = key) = some field)
      (missing : field.given draft = false) (read : Reads (field.read room draft) d next)
      (further : Fills r room next rest last) : Fills r room draft ((key, d) :: rest) last

/-- Fields on lines of their own are read one by one, up to the line on which their object
ends. -/
theorem takes_prettyFields (level outer : Nat) (fills : r.Fills room draft fields last)
    (nonempty : fields ≠ []) {first : Bool} {start : List UInt8} {n : Nat}
    (hstart : ∀ key, Takes (fun _ => True) (nextKey first) (start ++ encoded (string key))
      (some key)) (enough : fields.length < n) :
    Takes (Closed 0x7d) (r.fromObject room draft first n)
      (start ++ (encoded (prettyFields level fields) ++ encoded (newline outer))) last := by
  induction fills generalizing first start n with
  | nil draft => exact absurd rfl nonempty
  | @cons draft next last field key d rest known missing read further ih =>
    obtain ⟨n, rfl⟩ : ∃ m, n = m + 1 := ⟨n - 1, by omega⟩
    rw [List.length_cons] at enough
    have space : Blank [0x20] := List.forall_mem_singleton.2 rfl
    have value := read level [0x20] space
    cases rest with
    | nil =>
      obtain ⟨n, rfl⟩ : ∃ m, n = m + 1 := ⟨n - 1, by omega⟩
      cases further
      have whole := takes_field (hstart key) known missing value
        (takes_noField (n := n) (blank_newline outer)) fun behind _ => ended_newline outer behind
      rw [encoded_prettyFields_singleton, List.append_assoc, List.cons_append, ← List.append_assoc]
      exact whole
    | cons other rest =>
      have names : ∀ key, Takes (fun _ => True) (nextKey false)
          (0x2c :: encoded (newline level) ++ encoded (string key)) (some key) :=
        fun key => takes_nextKey key (blank_newline level)
      have tail := ih (List.cons_ne_nil other rest) names (n := n) (by omega)
      have whole := takes_field (hstart key) known missing value tail
        fun behind _ => ended_cons (by decide) _
      rw [encoded_prettyFields_cons, List.append_assoc, List.cons_append, ← List.append_assoc,
        List.append_assoc ([0x20] ++ _), List.append_assoc (0x2c :: _)]
      exact whole

end Record

theorem reads_record {r : Record δ α} {room : Nat} {fields : List (String × Document)} {a : α}
    (last : δ) (fills : r.Fills room r.start fields last) (finished : r.finish last = pure a) :
    Reads (r.read (room + 1)) (.object fields) a := by
  refine .of_takes (skipsBlanks_peekValue.bind _) fun level => ?_
  by_cases nonempty : fields = []
  · subst nonempty
    cases fills
    refine Record.takes_read (fun n enough => ?_) finished
    obtain ⟨n, rfl⟩ : ∃ m, n = m + 1 := ⟨n - 1, by omega⟩
    exact Record.takes_noField blank_nil
  · rw [encoded_pretty_object level nonempty]
    refine Record.takes_read (fun n enough => ?_) finished
    refine Record.takes_prettyFields (level + 1) level fills nonempty
      (fun key => takes_firstKey key (blank_newline (level + 1))) ?_
    have fewer := length_le_prettyFields (level + 1) fields
    rw [List.length_append, List.length_append] at enough
    omega

/-! ## Whole documents -/

theorem decode_prettyText {value : Nat → Read α} {d : Document} {a : α}
    (h : Reads (value maxNesting) d a) : decode value d.prettyText = .ok a := by
  unfold decode
  rw [Document.prettyText, Text.utf8_ofList]
  exact decodeBytes_of_takes (h 0 [] blank_nil)

end LedgerScript.Json
