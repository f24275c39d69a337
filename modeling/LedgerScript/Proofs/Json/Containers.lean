import LedgerScript.Proofs.Json.Taking

/-!
# Lists, objects and records

What is in a list or an object is taken part by part, each with the comma in front of
it, up to the end of its container (`takes_itemsFrom`, `takes_fieldsFrom`).  The fields
of a record are read into a draft one after the other (`Record.takes_field`).
-/

namespace LedgerScript.Json

open Text (encoded)

variable {α β γ : Type}

/-! ## Containers -/

/-- A value begins with these bytes, rather than the end of a list. -/
def Opens (rest : List UInt8) : Prop :=
  ∃ b tail, rest = b :: tail ∧ isSpace b = false ∧ b ≠ 0x5d

/-- A container ends with these bytes. -/
def Closed (close : UInt8) (rest : List UInt8) : Prop := ∃ tail, rest = close :: tail

theorem Closed.ended {close : UInt8} {rest : List UInt8} (h : Closed close rest)
    (container : close = 0x5d ∨ close = 0x7d) : Ended rest := by
  obtain ⟨tail, rfl⟩ := h
  rcases container with rfl | rfl <;> exact ended_cons (by decide) tail

section

variable {follow : List UInt8 → Prop} {blanks : List UInt8}

/-- `enter` opens a container, and what is inside has one level less. -/
theorem Takes.enter {room : Nat} {f : Nat → Read β} {bytes : List UInt8} {b : β}
    (h : Takes follow (f room) bytes b) (first : UInt8) :
    Takes follow (Json.enter (room + 1) >>= f) (first :: bytes) b := by
  intro rest place hr
  exact h rest (place.after first) hr

/-- `enclosed` takes the parts of a container up to its end. -/
theorem Takes.within {x : Read α} {finish : Read Unit} {bytes : List UInt8} {a : α}
    {close : UInt8} (hx : Takes (Closed close) x bytes a) (hf : Takes follow finish [close] ()) :
    Takes follow (Json.enclosed x finish) (bytes ++ [close]) a :=
  hx.enclosed hf fun rest _ => ⟨rest, rfl⟩

theorem skipsBlanks_nextItem (first : Bool) : SkipsBlanks (nextItem first) :=
  skipsBlanks_peekPastSpace.bind _

theorem skipsBlanks_nextKey (first : Bool) : SkipsBlanks (nextKey first) :=
  skipsBlanks_peekPastSpace.bind _

theorem takes_firstItem (blank : Blank blanks) : Takes Opens (nextItem true) blanks true := by
  refine Takes.past ?_ (skipsBlanks_nextItem true) blank
  rintro rest place ⟨b, tail, rfl, dark, inside⟩
  refine ⟨place, ?_⟩
  unfold nextItem
  rw [List.nil_append, bind_of_ok (peekPastSpace_cons dark tail place)]
  dsimp only
  rw [if_neg inside, if_pos rfl]
  rfl

theorem takes_nextItem (blank : Blank blanks) :
    Takes Opens (nextItem false) (0x2c :: blanks) true := by
  refine Takes.peekPastSpace rfl (Takes.skip ?_ 0x2c)
  refine Takes.past ?_ (skipsBlanks_peekPastSpace.bind _) blank
  rintro rest place ⟨b, tail, rfl, dark, inside⟩
  refine ⟨place, ?_⟩
  rw [List.nil_append, bind_of_ok (peekPastSpace_cons dark tail _)]
  dsimp only
  rw [if_neg inside]
  rfl

theorem takes_noItem (first : Bool) (blank : Blank blanks) :
    Takes (Closed 0x5d) (nextItem first) blanks false := by
  refine Takes.past ?_ (skipsBlanks_nextItem first) blank
  rintro _ place ⟨rest, rfl⟩
  refine ⟨place, ?_⟩
  unfold nextItem
  rw [List.nil_append, bind_of_ok (peekPastSpace_cons rfl rest place)]
  rfl

theorem takes_endList (follow : List UInt8 → Prop) : Takes follow endList [0x5d] () :=
  Takes.peekPastSpace rfl ((takes_pure ()).skip 0x5d)

theorem takes_firstKey (key : String) (blank : Blank blanks) :
    Takes follow (nextKey true) (blanks ++ encoded (string key)) (some key) := by
  have read := ((takes_stringRest follow key).map some).skip 0x22
  rw [encoded_string]
  exact Takes.behind (.peekPastSpace rfl read) (skipsBlanks_nextKey true) blank

theorem takes_nextKey (key : String) (blank : Blank blanks) :
    Takes follow (nextKey false) (0x2c :: (blanks ++ encoded (string key))) (some key) := by
  have read := ((takes_stringRest follow key).map some).skip 0x22
  rw [encoded_string]
  refine Takes.peekPastSpace rfl (Takes.skip ?_ 0x2c)
  exact Takes.behind (.peekPastSpace rfl read) (skipsBlanks_peekPastSpace.bind _) blank

theorem takes_noKey (first : Bool) (blank : Blank blanks) :
    Takes (Closed 0x7d) (nextKey first) blanks none := by
  refine Takes.past ?_ (skipsBlanks_nextKey first) blank
  rintro _ place ⟨rest, rfl⟩
  refine ⟨place, ?_⟩
  unfold nextKey
  rw [List.nil_append, bind_of_ok (peekPastSpace_cons rfl rest place)]
  rfl

theorem takes_colon (follow : List UInt8 → Prop) : Takes follow colon [0x3a] () :=
  Takes.peekPastSpace rfl ((takes_pure ()).skip 0x3a)

theorem takes_endObject (follow : List UInt8 → Prop) : Takes follow endObject [0x7d] () :=
  Takes.peekPastSpace rfl ((takes_pure ()).skip 0x7d)

end

theorem Opens.append {bytes : List UInt8} (h : Opens bytes) (rest : List UInt8) :
    Opens (bytes ++ rest) := by
  obtain ⟨b, tail, rfl, dark, inside⟩ := h
  exact ⟨b, tail ++ rest, rfl, dark, inside⟩

theorem Opens.ne_nil {bytes : List UInt8} (h : Opens bytes) : bytes ≠ [] := by
  obtain ⟨b, tail, rfl, -⟩ := h
  exact List.cons_ne_nil b tail

theorem opens_digits (n : Int) : Opens (encoded (Document.digits n)) := by
  cases n with
  | ofNat k =>
    obtain ⟨b, digits, eq, digit⟩ := Text.exists_digit_numeral k
    rw [digits_ofNat, eq]
    refine ⟨b, digits, rfl, isSpace_of_isDigit digit, ?_⟩
    rintro rfl
    exact absurd digit (by decide)
  | negSucc k =>
    rw [digits_negSucc]
    exact ⟨0x2d, _, rfl, rfl, by decide⟩

theorem opens_string (s : String) : Opens (encoded (string s)) := by
  rw [encoded_string]
  exact ⟨0x22, _, rfl, rfl, by decide⟩

section

variable {item : Read α}

/-- What stands in front of another part or of the end of its container. -/
theorem ended_parts {parts : List γ} {f : γ → List UInt8} {close : UInt8}
    {behind : List UInt8} (h : Closed close behind) (container : close = 0x5d ∨ close = 0x7d) :
    Ended (parts.flatMap (fun part => 0x2c :: f part) ++ behind) := by
  cases parts with
  | nil => exact h.ended container
  | cons part rest => exact ended_cons (by decide) _

theorem takes_noItems {first : Bool} {n : Nat} {blanks : List UInt8} (blank : Blank blanks) :
    Takes (Closed 0x5d) (itemsFrom item first (n + 1)) blanks [] := by
  have none := takes_noItem first blank_nil
  unfold itemsFrom
  exact (none.ahead (takes_pure []) fun _ hr => hr).past ((skipsBlanks_nextItem first).bind _)
    blank

/-- An item behind its start, and the items after it. -/
theorem takes_item {first : Bool} {start bytes more : List UInt8} {head : α} {tail : List α}
    {n : Nat} (hstart : Takes Opens (nextItem first) start true)
    (hitem : Takes Ended item bytes head) (opens : Opens bytes)
    (htail : Takes (Closed 0x5d) (itemsFrom item false n) more tail)
    (glue : ∀ behind, Closed 0x5d behind → Ended (more ++ behind)) :
    Takes (Closed 0x5d) (itemsFrom item first (n + 1)) (start ++ (bytes ++ more))
      (head :: tail) := by
  have others := htail.map fun items => head :: items
  have whole := hitem.bind (f := fun head => itemsFrom item false n >>= fun items =>
    pure (head :: items)) others glue
  unfold itemsFrom
  exact hstart.bind whole fun _ _ => (opens.append _).append _

/-- Items are taken one by one, each with the comma in front of it. -/
theorem takes_items {parts : List (List UInt8 × α)}
    (each : ∀ part ∈ parts, Takes Ended item part.1 part.2 ∧ Opens part.1) {n : Nat}
    (enough : parts.length < n) :
    Takes (Closed 0x5d) (itemsFrom item false n) (parts.flatMap fun part => 0x2c :: part.1)
      (parts.map Prod.snd) := by
  induction parts generalizing n with
  | nil =>
    obtain ⟨n, rfl⟩ : ∃ m, n = m + 1 := ⟨n - 1, by omega⟩
    exact takes_noItems blank_nil
  | cons part rest ih =>
    obtain ⟨n, rfl⟩ : ∃ m, n = m + 1 := ⟨n - 1, by omega⟩
    obtain ⟨⟨taken, opens⟩, others⟩ := List.forall_mem_cons.1 each
    rw [List.length_cons] at enough
    exact takes_item (takes_nextItem blank_nil) taken opens (ih others (by omega))
      fun _ closed => ended_parts closed (.inl rfl)

/-- `itemsFrom` takes the items of a list, of which the first has no comma in front. -/
theorem takes_itemsFrom {parts : List (List UInt8 × α)}
    (each : ∀ part ∈ parts, Takes Ended item part.1 part.2 ∧ Opens part.1) {n : Nat}
    (enough : parts.length < n) :
    Takes (Closed 0x5d) (itemsFrom item true n)
      ((parts.flatMap fun part => 0x2c :: part.1).drop 1) (parts.map Prod.snd) := by
  obtain ⟨n, rfl⟩ : ∃ m, n = m + 1 := ⟨n - 1, by omega⟩
  cases parts with
  | nil => exact takes_noItems blank_nil
  | cons part rest =>
    obtain ⟨⟨taken, opens⟩, others⟩ := List.forall_mem_cons.1 each
    rw [List.length_cons] at enough
    exact takes_item (takes_firstItem blank_nil) taken opens (takes_items others (by omega))
      fun _ closed => ended_parts closed (.inl rfl)

/-- `readList` takes a list as its items between brackets. -/
theorem takes_readList {follow : List UInt8 → Prop} {item : Nat → Read α} {room : Nat}
    {inside : List UInt8} {values : List α}
    (items : ∀ n, inside.length < n →
      Takes (Closed 0x5d) (itemsFrom (item room) true n) inside values) :
    Takes follow (readList item (room + 1)) (0x5b :: (inside ++ [0x5d])) values := by
  refine .peekValue rfl (.located ?_)
  rw [if_pos rfl]
  exact ((takes_turns items).within (takes_endList follow)).enter 0x5b

/-- A field as it is written, and what is read of it. -/
structure FieldPart (α : Type) where
  key : String
  bytes : List UInt8
  value : α

def FieldPart.written (part : FieldPart α) : List UInt8 :=
  encoded (string part.key) ++ 0x3a :: part.bytes

theorem takes_fieldPart {first : Bool} {name more : List UInt8} {part : FieldPart α}
    {tail : List (String × α)} {n : Nat}
    (hname : Takes (fun _ => True) (nextKey first) name (some part.key))
    (hvalue : Takes Ended item part.bytes part.value)
    (htail : Takes (Closed 0x7d) (fieldsFrom item false n) more tail)
    (glue : ∀ behind, Closed 0x7d behind → Ended (more ++ behind)) :
    Takes (Closed 0x7d) (fieldsFrom item first (n + 1)) (name ++ 0x3a :: (part.bytes ++ more))
      ((part.key, part.value) :: tail) := by
  have others := htail.map fun fields => (part.key, part.value) :: fields
  have whole := hvalue.bind (f := fun v => fieldsFrom item false n >>= fun fields =>
    pure ((part.key, v) :: fields)) others glue
  unfold fieldsFrom
  refine hname.bind ?_ fun _ _ => trivial
  exact (takes_colon fun _ => True).bind whole fun _ _ => trivial

/-- Fields are taken one by one, each with the comma in front of it. -/
theorem takes_fields {parts : List (FieldPart α)}
    (each : ∀ part ∈ parts, Takes Ended item part.bytes part.value) {n : Nat}
    (enough : parts.length < n) :
    Takes (Closed 0x7d) (fieldsFrom item false n) (parts.flatMap fun part => 0x2c :: part.written)
      (parts.map fun part => (part.key, part.value)) := by
  induction parts generalizing n with
  | nil =>
    obtain ⟨n, rfl⟩ : ∃ m, n = m + 1 := ⟨n - 1, by omega⟩
    unfold fieldsFrom
    exact (takes_noKey false blank_nil).ahead (takes_pure []) fun _ hr => hr
  | cons part rest ih =>
    obtain ⟨n, rfl⟩ : ∃ m, n = m + 1 := ⟨n - 1, by omega⟩
    obtain ⟨taken, others⟩ := List.forall_mem_cons.1 each
    rw [List.length_cons] at enough
    have read := takes_fieldPart (takes_nextKey part.key blank_nil) taken
      (ih others (n := n) (by omega)) fun _ closed => ended_parts closed (.inr rfl)
    rw [List.flatMap_cons, FieldPart.written, List.cons_append, List.append_assoc]
    exact read

/-- `fieldsFrom` takes the fields of an object, of which the first has no comma in front. -/
theorem takes_fieldsFrom {parts : List (FieldPart α)}
    (each : ∀ part ∈ parts, Takes Ended item part.bytes part.value) {n : Nat}
    (enough : parts.length < n) :
    Takes (Closed 0x7d) (fieldsFrom item true n)
      ((parts.flatMap fun part => 0x2c :: part.written).drop 1)
      (parts.map fun part => (part.key, part.value)) := by
  obtain ⟨n, rfl⟩ : ∃ m, n = m + 1 := ⟨n - 1, by omega⟩
  cases parts with
  | nil =>
    unfold fieldsFrom
    exact (takes_noKey true blank_nil).ahead (takes_pure []) fun _ hr => hr
  | cons part rest =>
    obtain ⟨taken, others⟩ := List.forall_mem_cons.1 each
    rw [List.length_cons] at enough
    have read := takes_fieldPart (takes_firstKey part.key blank_nil) taken
      (takes_fields others (n := n) (by omega)) fun _ closed => ended_parts closed (.inr rfl)
    rw [List.flatMap_cons, FieldPart.written, List.cons_append, List.append_assoc]
    exact read

end

/-! ## Records -/

namespace Record

variable {δ α : Type} {r : Record δ α} {field : RecordField δ} {draft next : δ} {key : String}
  {follow between : List UInt8 → Prop} {bytes more : List UInt8} {a : δ}

/-- A field that is known and has not been given yet is read into the draft, and
the other fields follow. -/
theorem takes_field {first : Bool} {room n : Nat} {name : List UInt8}
    (hkey : Takes (fun _ => True) (nextKey first) name (some key))
    (known : r.fields.find? (·.name = key) = some field) (missing : field.given draft = false)
    (hvalue : Takes between (field.read room draft) bytes next)
    (hrest : Takes follow (r.fromObject room next false n) more a)
    (glue : ∀ rest, follow rest → between (more ++ rest)) :
    Takes follow (r.fromObject room draft first (n + 1)) (name ++ 0x3a :: (bytes ++ more)) a := by
  have colon := takes_colon fun _ => True
  unfold fromObject
  refine hkey.bind ?_ fun _ _ => trivial
  dsimp only
  rw [known]
  dsimp only
  rw [missing, if_neg Bool.false_ne_true]
  exact colon.bind (hvalue.bind hrest glue) fun _ _ => trivial

theorem takes_noField {first : Bool} {room n : Nat} {blanks : List UInt8} (blank : Blank blanks) :
    Takes (Closed 0x7d) (r.fromObject room draft first (n + 1)) blanks draft := by
  have none := takes_noKey first blank_nil
  unfold fromObject
  exact (none.ahead (takes_pure draft) fun _ hr => hr).past ((skipsBlanks_nextKey first).bind _)
    blank

/-- `read` takes a record as an object of the fields that make its `last` draft. -/
theorem takes_read {result : α} {room : Nat} {inside : List UInt8} {last : δ}
    (fields : ∀ n, inside.length < n →
      Takes (Closed 0x7d) (r.fromObject room r.start true n) inside last)
    (finished : r.finish last = pure result) :
    Takes follow (r.read (room + 1)) (0x7b :: (inside ++ [0x7d])) result := by
  have drafted : Takes (Closed 0x7d)
      (turns >>= fun n => r.fromObject room r.start true n >>= r.finish) inside result := by
    refine takes_turns fun n enough => ?_
    have done : Takes (Closed 0x7d) (r.finish last) [] result := finished ▸ takes_pure result
    have whole := (fields n enough).bind done fun _ hr => hr
    rw [List.append_nil] at whole
    exact whole
  refine .peekValue rfl (.located ?_)
  rw [if_neg (by decide), if_pos rfl]
  exact (drafted.within (takes_endObject follow)).enter 0x7b

end Record

end LedgerScript.Json
