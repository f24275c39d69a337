/-!
# Entries in the order of their keys

The entries of a map are a list that rises by its keys.  `Entries.put` adds a
key or changes its value, and `Entries.set` changes the value of a key that is
there.  Main statements: what was put or set is read back, no other key is
touched, the order is kept, and the second change of a key leaves nothing of
the first.
-/

namespace LedgerScript

/-- Entries of a map by their keys. -/
abbrev Entries (α : Type) := List (String × α)

namespace Entries

variable {α : Type}

/-- The value of a key. -/
def get? (entries : Entries α) (key : String) : Option α :=
  entries.lookup key

/-- Gives a key a value, in the place where the order wants it. -/
def put (key : String) (value : α) : Entries α → Entries α
  | [] => [(key, value)]
  | (k, v) :: rest =>
    if key = k then (key, value) :: rest
    else if key < k then (key, value) :: (k, v) :: rest
    else (k, v) :: put key value rest

/-- Gives a key that is there another value, in its place. -/
def set (key : String) (value : α) : Entries α → Entries α
  | [] => []
  | (k, v) :: rest => if key = k then (k, value) :: rest else (k, v) :: set key value rest

/-- Entries one after the other, by `put`; the last of a key stays. -/
def ofList (pairs : List (String × α)) : Entries α :=
  pairs.foldl (fun entries (key, value) => entries.put key value) []

/-- The keys rise. -/
def Sorted (entries : Entries α) : Prop :=
  entries.Pairwise fun a b => a.1 < b.1

@[simp] theorem get?_nil (key : String) : get? ([] : Entries α) key = none := rfl

theorem get?_cons (key k : String) (v : α) (rest : Entries α) :
    get? ((k, v) :: rest) key = if key = k then some v else get? rest key := by
  rw [get?, List.lookup_cons]
  by_cases h : key = k
  · subst h; simp
  · simp [get?, h, beq_eq_false_iff_ne.2 h]

@[simp] theorem get?_put_self (entries : Entries α) (key : String) (value : α) :
    (entries.put key value).get? key = some value := by
  induction entries with
  | nil => simp [put, get?_cons]
  | cons e rest ih =>
    obtain ⟨k, v⟩ := e
    simp only [put]
    split
    · simp [get?_cons]
    · split
      · simp [get?_cons]
      · next ne _ => simp [get?_cons, ne, ih]

theorem get?_put_of_ne {key other : String} (ne : other ≠ key) (entries : Entries α)
    (value : α) : (entries.put key value).get? other = entries.get? other := by
  induction entries with
  | nil => simp [put, get?_cons, ne]
  | cons e rest ih =>
    obtain ⟨k, v⟩ := e
    simp only [put]
    split
    · next h => subst h; simp [get?_cons, ne]
    · split
      · simp [get?_cons, ne]
      · simp [get?_cons, ih]

theorem put_put (entries : Entries α) (key : String) (first second : α) :
    (entries.put key first).put key second = entries.put key second := by
  induction entries with
  | nil => simp [put]
  | cons e rest ih =>
    obtain ⟨k, v⟩ := e
    simp only [put]
    split
    · simp [put]
    · split
      · simp [put]
      · next ne nlt => simp [put, ne, nlt, ih]

theorem get?_set_self {entries : Entries α} {key : String} (there : (entries.get? key).isSome)
    (value : α) : (entries.set key value).get? key = some value := by
  induction entries with
  | nil => cases there
  | cons e rest ih =>
    obtain ⟨k, v⟩ := e
    simp only [set]
    split
    · next same => simp [get?_cons, same]
    · next ne =>
      rw [get?_cons, if_neg ne] at there ⊢
      exact ih there

theorem get?_set_of_ne {key other : String} (ne : other ≠ key) (entries : Entries α)
    (value : α) : (entries.set key value).get? other = entries.get? other := by
  induction entries with
  | nil => rfl
  | cons e rest ih =>
    obtain ⟨k, v⟩ := e
    simp only [set]
    split
    · next same => subst same; simp [get?_cons, ne]
    · simp [get?_cons, ih]

theorem set_set (entries : Entries α) (key : String) (first second : α) :
    (entries.set key first).set key second = entries.set key second := by
  induction entries with
  | nil => rfl
  | cons e rest ih =>
    obtain ⟨k, v⟩ := e
    simp only [set]
    split
    · next same => simp [set, same]
    · next ne => simp [set, ne, ih]

/-- `set` with the value that stands there already changes nothing. -/
theorem set_self {entries : Entries α} {key : String} {value : α}
    (there : entries.get? key = some value) : entries.set key value = entries := by
  induction entries with
  | nil => rfl
  | cons e rest ih =>
    obtain ⟨k, v⟩ := e
    rw [get?_cons] at there
    simp only [set]
    split
    · next same =>
      rw [if_pos same] at there
      cases there
      rfl
    · next ne =>
      rw [if_neg ne] at there
      rw [ih there]

theorem map_fst_set (key : String) (value : α) (entries : Entries α) :
    (entries.set key value).map Prod.fst = entries.map Prod.fst := by
  induction entries with
  | nil => rfl
  | cons e rest ih =>
    simp only [set]
    split
    · rfl
    · exact congrArg (e.1 :: ·) ih

/-- `put` adds no key but its own. -/
theorem mem_put {entries : Entries α} {key : String} {value : α} {e : String × α}
    (h : e ∈ entries.put key value) : e = (key, value) ∨ e ∈ entries := by
  induction entries with
  | nil => simpa [put] using h
  | cons first rest ih =>
    obtain ⟨k, v⟩ := first
    simp only [put] at h
    split at h
    · simp only [List.mem_cons] at h ⊢
      exact h.imp id .inr
    · split at h
      · simpa using h
      · simp only [List.mem_cons] at h ⊢
        rcases h with h | h
        · exact .inr (.inl h)
        · exact (ih h).imp id .inr

theorem Sorted.put {entries : Entries α} (sorted : entries.Sorted) (key : String)
    (value : α) : (entries.put key value).Sorted := by
  induction entries with
  | nil => simp [Entries.put, Sorted]
  | cons first rest ih =>
    obtain ⟨k, v⟩ := first
    obtain ⟨above, tail⟩ := List.pairwise_cons.1 sorted
    simp only [Entries.put]
    split
    · next h => subst h; exact List.pairwise_cons.2 ⟨above, tail⟩
    · next ne =>
      split
      · next lt =>
        refine List.pairwise_cons.2 ⟨fun e he => ?_, sorted⟩
        rcases List.mem_cons.1 he with rfl | he
        · exact lt
        · exact String.lt_trans lt (above e he)
      · next nlt =>
        refine List.pairwise_cons.2 ⟨fun e he => ?_, ih tail⟩
        rcases mem_put he with rfl | he
        · by_cases h : k < key
          · exact h
          · exact absurd (String.le_antisymm (String.not_lt.1 h) (String.not_lt.1 nlt)) ne
        · exact above e he

theorem mem_set {entries : Entries α} {key : String} {value : α} {e : String × α}
    (h : e ∈ entries.set key value) : e = (key, value) ∨ e ∈ entries := by
  induction entries with
  | nil => cases h
  | cons first rest ih =>
    simp only [set] at h
    split at h <;> rcases List.mem_cons.1 h with rfl | h
    · next same => exact .inl (by rw [same])
    · exact .inr (List.mem_cons_of_mem _ h)
    · exact .inr List.mem_cons_self
    · exact (ih h).imp id (List.mem_cons_of_mem _)

theorem Sorted.set {entries : Entries α} (sorted : entries.Sorted) (key : String)
    (value : α) : (entries.set key value).Sorted := by
  have keys : (entries.map Prod.fst).Pairwise (· < ·) := List.pairwise_map.2 sorted
  rw [← map_fst_set key value] at keys
  exact List.pairwise_map.1 keys

/-- `ofList` sorts, in whatever order the entries came. -/
theorem sorted_ofList (pairs : List (String × α)) : (ofList pairs).Sorted := by
  suffices ∀ entries : Entries α, entries.Sorted →
      (pairs.foldl (fun entries (key, value) => entries.put key value) entries).Sorted from
    this [] List.Pairwise.nil
  induction pairs with
  | nil => exact fun _ h => h
  | cons p rest ih => exact fun entries h => ih _ (h.put p.1 p.2)

end Entries

end LedgerScript
