import LedgerScript.Machine.Path

/-!
# Parts of values

What a path finds inside a value is a scalar or counts for no more bytes than
the value (`Value.within_readPath`).
-/

namespace LedgerScript

namespace Value

/-- Texts, lists and maps; they alone take memory. -/
def compound : Value → Bool
  | str _ | list _ | map _ => true
  | _ => false

/-- A scalar, or no larger than the other value. -/
def Within (part whole : Value) : Prop :=
  part.compound = true → whole.compound = true ∧ part.size ≤ whole.size

theorem Within.refl (v : Value) : v.Within v := fun h => ⟨h, Nat.le_refl _⟩

theorem Within.trans {a b c : Value} (hab : a.Within b) (hbc : b.Within c) : a.Within c := by
  intro compound
  obtain ⟨mid, first⟩ := hab compound
  obtain ⟨whole, second⟩ := hbc mid
  exact ⟨whole, Nat.le_trans first second⟩

theorem within_of_scalar {part : Value} (h : part.compound = false) (whole : Value) :
    part.Within whole := by
  intro compound
  rw [h] at compound
  cases compound

/-! ## Sizes -/

theorem size_le_sizeOfItems {items : List Value} {v : Value} (h : v ∈ items) :
    v.size ≤ sizeOfItems items := by
  induction items with
  | nil => cases h
  | cons item rest ih =>
    simp only [sizeOfItems]
    rcases List.mem_cons.1 h with rfl | later
    · omega
    · have := ih later
      omega

theorem size_le_sizeOfEntries {entries : Entries Value} {key : String} {v : Value}
    (h : Entries.get? entries key = some v) : v.size ≤ sizeOfEntries entries := by
  induction entries with
  | nil => cases h
  | cons entry rest ih =>
    obtain ⟨k, w⟩ := entry
    rw [Entries.get?_cons] at h
    simp only [sizeOfEntries]
    split at h
    · cases h
      omega
    · have := ih h
      omega

/-- A character is no longer than a text that has it. -/
theorem utf8ByteSize_le_of_mem {s : String} {c : Char} (h : c ∈ s.toList) :
    c.toString.utf8ByteSize ≤ s.utf8ByteSize := by
  obtain ⟨before, after, split⟩ := List.append_of_mem h
  have joined : s = String.ofList before ++ (c.toString ++ String.ofList after) := by
    rw [← String.ofList_toList (s := s), split]
    simp
  rw [joined, String.utf8ByteSize_append, String.utf8ByteSize_append]
  omega

/-! ## Paths -/

theorem within_get? {entries : Entries Value} (key : String) :
    ((Entries.get? entries key).getD null).Within (map entries) := by
  cases found : Entries.get? entries key with
  | none => exact within_of_scalar rfl _
  | some v =>
    have inside := size_le_sizeOfEntries found
    refine fun _ => ⟨rfl, ?_⟩
    simp only [Option.getD_some, size]
    omega

theorem within_getElem? {items : List Value} (i : Nat) :
    (items[i]?.getD null).Within (list items) := by
  cases found : items[i]? with
  | none => exact within_of_scalar rfl _
  | some v =>
    have inside := size_le_sizeOfItems (List.mem_of_getElem? found)
    refine fun _ => ⟨rfl, ?_⟩
    simp only [Option.getD_some, size]
    omega

theorem within_char {s : String} (i : Nat) :
    ((s.toList[i]?.map fun c => str c.toString).getD null).Within (str s) := by
  cases found : s.toList[i]? with
  | none => exact within_of_scalar rfl _
  | some c =>
    have inside := utf8ByteSize_le_of_mem (List.mem_of_getElem? found)
    refine fun _ => ⟨rfl, ?_⟩
    simp only [Option.map_some, Option.getD_some, size]
    omega

theorem within_member {v found : Value} {name : String} (h : v.member name = .ok found) :
    found.Within v := by
  unfold member at h
  split at h
  · cases h
    exact within_get? name
  · split at h <;> cases h
    exact within_of_scalar rfl _
  · split at h <;> cases h
    exact within_of_scalar rfl _
  · cases h

theorem within_item {v key found : Value} (h : v.item key = .ok found) : found.Within v := by
  unfold item at h
  split at h
  · rename_i n
    cases h
    cases position? n with
    | none => exact within_of_scalar rfl _
    | some i => exact within_getElem? i
  · cases h
    exact within_get? _
  · cases h
    exact within_get? _
  · rename_i n
    cases h
    cases position? n with
    | none => exact within_of_scalar rfl _
    | some i => exact within_char i
  · cases h

theorem within_select {v found : Value} {key : PathKey} (h : v.select key = .ok found) :
    found.Within v := by
  cases key with
  | name s => exact within_member h
  | value key => exact within_item h

theorem readPath_cons_of_ok {v child : Value} {key : PathKey} (h : v.select key = .ok child)
    (rest : List PathKey) :
    v.readPath (key :: rest) =
      (child.readPath rest).map fun last => (last.1, v.scanned + last.2) := by
  rw [readPath, h]
  change (child.readPath rest >>= _) = _
  cases child.readPath rest <;> rfl

theorem readPath_cons_eq_ok {v : Value} {key : PathKey} {rest : List PathKey}
    {found : Value × Nat} (h : v.readPath (key :: rest) = .ok found) :
    ∃ child last, v.select key = .ok child ∧ child.readPath rest = .ok last ∧
      found = (last.1, v.scanned + last.2) := by
  unfold readPath at h
  cases selected : v.select key with
  | error f =>
    rw [selected] at h
    cases h
  | ok child =>
    rw [selected] at h
    change (child.readPath rest >>= fun last => .ok (last.1, v.scanned + last.2)) = _ at h
    cases inner : child.readPath rest with
    | error f =>
      rw [inner] at h
      cases h
    | ok last =>
      rw [inner] at h
      cases h
      exact ⟨child, last, rfl, inner, rfl⟩

/-- What `readPath` finds lies `Within` the value. -/
theorem within_readPath {v : Value} {keys : List PathKey} {found : Value × Nat}
    (h : v.readPath keys = .ok found) : found.1.Within v := by
  induction keys generalizing v found with
  | nil =>
    cases h
    exact .refl v
  | cons key rest ih =>
    obtain ⟨child, last, selected, inner, rfl⟩ := readPath_cons_eq_ok h
    exact (ih inner).trans (within_select selected)

end Value

end LedgerScript
