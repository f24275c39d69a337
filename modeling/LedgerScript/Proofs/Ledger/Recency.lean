import Mathlib.Data.List.Nodup
import LedgerScript.Proofs.Ledger.Loading

/-!
# The order of use

Whatever is asked of a cache, and in whatever order: its contracts are those used last
(`Cache.recency`), each source is answered as by a cache that has seen no other, and the
counts add up.  Main statement: `Cache.recency_exact`.
-/

namespace LedgerScript

namespace Cache

/-! ## Uses -/

/-- What may be asked of a `Cache`. -/
inductive Use where
  | load (source : List UInt8)
  | get (id : ContractId)
  | evict (id : ContractId)
  | contains (id : ContractId)

/-- What a `Cache` answers to a `Use`. -/
inductive Answer where
  | loaded (result : Except LoadError Contract)
  | got (contract? : Option Contract)
  | evicted (there : Bool)
  | contained (there : Bool)

def use (c : Cache) : Use → Answer × Cache
  | .load source => (.loaded (c.load source).1, (c.load source).2)
  | .get id => (.got (c.get id).1, (c.get id).2)
  | .evict id => (.evicted (c.evict id).1, (c.evict id).2)
  | .contains id => (.contained (c.contains id), c)

/-- The cache after all of some uses. -/
def after (c : Cache) (uses : List Use) : Cache :=
  uses.foldl (fun c u => (c.use u).2) c

def answers (c : Cache) : List Use → List Answer
  | [] => []
  | u :: rest => (c.use u).1 :: (c.use u).2.answers rest

/-- Something was dropped that was at hand. -/
def Answer.dropped : Answer → Bool
  | .evicted there => there
  | _ => false

/-- The use looks for a contract; a source that is not of `legalSize` is not looked for. -/
def Use.looks (a : Admission) : Use → Bool
  | .load source => a.legalSize source
  | .get _ => true
  | _ => false

/-! ## The identities used last -/

/-- The identities with one of them in front, as many as there is room for. -/
def toFront (room : Nat) (id : ContractId) (ids : List ContractId) : List ContractId :=
  (id :: ids.filter (· ≠ id)).take room

/-- What a `Use` makes of the identities that were used last. -/
def recency (a : Admission) (room : Nat) (ids : List ContractId) : Use → List ContractId
  | .load source =>
    match a.accept source with
    | .ok _ => toFront room (ContractId.ofSource source) ids
    | .error _ => ids
  | .get id => if id ∈ ids then toFront room id ids else ids
  | .evict id => ids.filter (· ≠ id)
  | .contains _ => ids

/-! ## Single operations -/

/-- The cache after `get` has found a contract. -/
def touch (c : Cache) (contract : Contract) : Cache :=
  { c with held := contract :: c.without contract.id, hits := c.hits + 1 }

/-- The cache after `get` has found nothing. -/
def miss (c : Cache) : Cache := { c with misses := c.misses + 1 }

variable {c : Cache} {id : ContractId} {source : List UInt8}

theorem get_eq (c : Cache) (id : ContractId) :
    (∃ contract ∈ c.held, contract.id = id ∧ c.get id = (some contract, c.touch contract)) ∨
      id ∉ c.ids ∧ c.get id = (none, c.miss) := by
  unfold get
  split
  · next contract found =>
    have same : contract.id = id := by simpa using List.find?_some found
    refine .inl ⟨contract, List.mem_of_find?_eq_some found, same, ?_⟩
    rw [touch, same]
  · next missing =>
    refine .inr ⟨fun mem => ?_, rfl⟩
    obtain ⟨contract, held, same⟩ := List.mem_map.1 mem
    exact List.find?_eq_none.1 missing contract held (decide_eq_true same)

/-- What can become of a source that is given to `load`. -/
inductive Loads (c : Cache) (source : List UInt8) : Prop
  | illegal (size : c.admission.legalSize source = false)
    (eq : c.load source = (.error (.invalidSize source.length c.admission.maxSize), c))
  | found (size : c.admission.legalSize source = true) (contract : Contract)
    (mem : contract ∈ c.held) (own : contract.id = ContractId.ofSource source)
    (eq : c.load source = (.ok contract, c.touch contract))
  | refused (size : c.admission.legalSize source = true) (e : LoadError)
    (refused : c.admission.accept source = .error e)
    (eq : c.load source = (.error e, c.miss))
  | admitted (size : c.admission.legalSize source = true) (contract : Contract)
    (accepted : c.admission.accept source = .ok contract) (new : contract.id ∉ c.ids)
    (eq : c.load source = (.ok contract, c.miss.hold contract))

theorem loads (c : Cache) (source : List UInt8) : c.Loads source := by
  cases size : c.admission.legalSize source with
  | false =>
    refine .illegal size ?_
    unfold load
    rw [if_neg (by simp [size])]
  | true =>
    have accept : c.admission.accept source = c.miss.admission.compile source := if_pos size
    rcases c.get_eq (ContractId.ofSource source) with ⟨contract, mem, own, got⟩ | ⟨new, got⟩
    · refine .found size contract mem own ?_
      unfold load
      rw [if_pos size, got]
    · cases accepted : c.admission.accept source with
      | error e =>
        refine .refused size e accepted ?_
        unfold load
        rw [if_pos size, got]
        dsimp only
        rw [← accept, accepted]
      | ok contract =>
        refine .admitted size contract accepted (Admission.id_of_accept accepted ▸ new) ?_
        unfold load
        rw [if_pos size, got]
        dsimp only
        rw [← accept, accepted]

/-! ## What uses keep -/

/-- The contracts that the cache holds are those of `known` sources, with identities of
their own, and no more of them than there is `room` for. -/
structure Stocked (a : Admission) (room : Nat) (known : List UInt8 → Prop) (c : Cache) : Prop where
  admission : c.admission = a
  capacity : c.capacity = room
  held : ∀ contract ∈ c.held, ∃ source, known source ∧ a.accept source = .ok contract
  nodup : c.ids.Nodup
  fits : c.ids.length ≤ room

theorem length_ids (c : Cache) : c.ids.length = c.held.length := List.length_map _

theorem length_filter_ne {ids : List ContractId} (nodup : ids.Nodup) (mem : id ∈ ids) :
    (ids.filter (· ≠ id)).length + 1 = ids.length := by
  have erased := List.length_erase_add_one mem
  rw [nodup.erase_eq_filter] at erased
  rw [← erased]
  congr 3
  funext other
  by_cases same : other = id <;> simp [same]

theorem filter_ne_of_not_mem {ids : List ContractId} (new : id ∉ ids) :
    ids.filter (· ≠ id) = ids :=
  List.filter_eq_self.2 fun _ mem => decide_eq_true fun same => new (same ▸ mem)

theorem ids_touch (c : Cache) (contract : Contract) :
    (c.touch contract).ids = contract.id :: c.ids.filter (· ≠ contract.id) := by
  rw [← map_id_without]
  rfl

theorem nodup_cons_filter {ids : List ContractId} (nodup : ids.Nodup) (id : ContractId) :
    (id :: ids.filter (· ≠ id)).Nodup :=
  List.nodup_cons.2 ⟨by simp, nodup.filter _⟩

section Stocked

variable {a : Admission} {room : Nat} {known : List UInt8 → Prop} {contract : Contract}

theorem length_ids_touch (nodup : c.ids.Nodup) (mem : contract ∈ c.held) :
    (c.touch contract).ids.length = c.ids.length := by
  rw [ids_touch]
  exact length_filter_ne nodup (List.mem_map_of_mem mem)

theorem Stocked.touch (h : c.Stocked a room known) (mem : contract ∈ c.held) :
    (c.touch contract).Stocked a room known where
  admission := h.admission
  capacity := h.capacity
  held other inside := by
    rcases List.mem_cons.1 inside with rfl | old
    · exact h.held other mem
    · exact h.held other (mem_of_mem_without old).1
  nodup := by
    rw [ids_touch]
    exact nodup_cons_filter h.nodup contract.id
  fits := by
    rw [length_ids_touch h.nodup mem]
    exact h.fits

theorem Stocked.miss (h : c.Stocked a room known) : c.miss.Stocked a room known :=
  ⟨h.admission, h.capacity, h.held, h.nodup, h.fits⟩

theorem Stocked.hold (h : c.Stocked a room known) (source_known : known source)
    (accepted : a.accept source = .ok contract) : (c.hold contract).Stocked a room known where
  admission := h.admission
  capacity := h.capacity
  held other inside := by
    rcases mem_hold inside with rfl | old
    · exact ⟨source, source_known, accepted⟩
    · exact h.held other old
  nodup := by
    rw [ids_hold]
    exact (nodup_cons_filter h.nodup contract.id).sublist (List.take_sublist ..)
  fits := by
    rw [ids_hold, h.capacity]
    exact List.length_take_le ..

theorem Stocked.evict (h : c.Stocked a room known) (id : ContractId) :
    (c.evict id).2.Stocked a room known where
  admission := h.admission
  capacity := h.capacity
  held other inside := h.held other (mem_of_mem_without inside).1
  nodup := by
    rw [ids_evict]
    exact h.nodup.filter _
  fits := by
    rw [ids_evict]
    exact Nat.le_trans (List.length_filter_le ..) h.fits

theorem Stocked.get (h : c.Stocked a room known) (id : ContractId) :
    (c.get id).2.Stocked a room known := by
  rcases c.get_eq id with ⟨contract, mem, -, got⟩ | ⟨-, got⟩
  · rw [got]
    exact h.touch mem
  · rw [got]
    exact h.miss

theorem Stocked.load (h : c.Stocked a room known) (source_known : known source) :
    (c.load source).2.Stocked a room known := by
  cases c.loads source with
  | illegal _ eq => exact eq ▸ h
  | found _ contract mem _ eq => exact eq ▸ h.touch mem
  | refused _ e _ eq => exact eq ▸ h.miss
  | admitted _ contract accepted _ eq =>
    rw [h.admission] at accepted
    exact eq ▸ h.miss.hold source_known accepted

/-- Every `use` leaves a cache `Stocked`, if what is loaded is `known`. -/
theorem Stocked.use (h : c.Stocked a room known) {u : Use}
    (loads : ∀ source, u = .load source → known source) : (c.use u).2.Stocked a room known := by
  cases u with
  | load source => exact h.load (loads source rfl)
  | get id => exact h.get id
  | evict id => exact h.evict id
  | contains id => exact h

/-! ### Answers -/

/-- The known sources are told apart by their identities. -/
def Distinct (known : List UInt8 → Prop) : Prop :=
  ∀ s t, known s → known t → ContractId.ofSource s = ContractId.ofSource t → s = t

/-- What the cache holds under the identity of a source is what `accept` makes of the
source. -/
theorem Stocked.accept_of_mem (h : c.Stocked a room known) (distinct : Distinct known)
    (source_known : known source) (mem : contract ∈ c.held)
    (own : contract.id = ContractId.ofSource source) : a.accept source = .ok contract := by
  obtain ⟨source', known', accepted⟩ := h.held contract mem
  have same := (Admission.id_of_accept accepted).symm.trans own
  cases distinct source' source known' source_known same
  exact accepted

theorem Stocked.load_eq (h : c.Stocked a room known) (distinct : Distinct known)
    (source_known : known source) : (c.load source).1 = a.accept source := by
  cases c.loads source with
  | illegal size eq =>
    rw [h.admission] at size eq
    rw [eq]
    exact (if_neg (by simp [size])).symm
  | found _ contract mem own eq =>
    rw [eq, h.accept_of_mem distinct source_known mem own]
  | refused _ e refused eq => rw [eq, ← refused, h.admission]
  | admitted _ contract accepted _ eq => rw [eq, ← accepted, h.admission]

/-! ### The identities used last -/

theorem Stocked.ids_touch_eq (h : c.Stocked a room known) (mem : contract ∈ c.held) :
    (c.touch contract).ids = toFront room contract.id c.ids := by
  have fits := (h.touch mem).fits
  rw [ids_touch] at fits ⊢
  exact (List.take_of_length_le fits).symm

theorem Stocked.ids_use (h : c.Stocked a room known) (distinct : Distinct known) {u : Use}
    (loads : ∀ source, u = .load source → known source) :
    (c.use u).2.ids = recency a room c.ids u := by
  cases u with
  | load source =>
    change (c.load source).2.ids = match a.accept source with | .ok _ => _ | .error _ => _
    rw [← h.load_eq distinct (loads source rfl)]
    cases c.loads source with
    | illegal _ eq => rw [eq]
    | found _ contract mem own eq =>
      rw [eq, ← own]
      exact h.ids_touch_eq mem
    | refused _ e _ eq =>
      rw [eq]
      rfl
    | admitted _ contract accepted _ eq =>
      rw [eq, ← Admission.id_of_accept accepted]
      dsimp only
      rw [ids_hold]
      unfold toFront
      rw [← h.capacity]
      rfl
  | get id =>
    change (c.get id).2.ids = if id ∈ c.ids then toFront room id c.ids else c.ids
    rcases c.get_eq id with ⟨contract, mem, rfl, got⟩ | ⟨new, got⟩
    · have inside : contract.id ∈ c.ids := List.mem_map_of_mem mem
      rw [got, if_pos inside]
      exact h.ids_touch_eq mem
    · rw [got, if_neg new]
      rfl
  | evict id => exact c.ids_evict id
  | contains id => rfl

/-! ### Counts -/

/-- From `c` to `next`, as many contracts were `compiled` as came to be held, went because
there were too many, or were `dropped`. -/
def Balanced (c next : Cache) (dropped : Nat) : Prop :=
  next.compiled + c.held.length + c.evictions =
    c.compiled + next.held.length + next.evictions + dropped

theorem balanced_touch (nodup : c.ids.Nodup) (mem : contract ∈ c.held) :
    c.Balanced (c.touch contract) 0 := by
  have same := length_ids_touch nodup mem
  rw [length_ids, length_ids] at same
  unfold Balanced
  rw [same]
  rfl

theorem Stocked.balanced_hold (h : c.Stocked a room known) (new : contract.id ∉ c.ids) :
    c.Balanced (c.miss.hold contract) 0 := by
  have rest : (c.without contract.id).length = c.held.length := by
    rw [← length_ids, ← filter_ne_of_not_mem new, ← map_id_without, List.length_map]
  have fits := h.fits
  rw [length_ids, ← h.capacity] at fits
  have kept : (c.miss.hold contract).held.length = min c.capacity (c.held.length + 1) := by
    change ((contract :: c.without contract.id).take c.capacity).length = _
    rw [List.length_take, List.length_cons, rest]
  have gone : (c.miss.hold contract).evictions =
      c.evictions + (c.held.length + 1 - c.capacity) := by
    change c.evictions + ((contract :: c.without contract.id).length - c.capacity) = _
    rw [List.length_cons, rest]
  have one : (c.miss.hold contract).compiled = c.compiled + 1 := rfl
  unfold Balanced
  omega

theorem balanced_evict (nodup : c.ids.Nodup) (id : ContractId) :
    c.Balanced (c.evict id).2 (if (c.evict id).1 then 1 else 0) := by
  have rest : (c.evict id).2.held.length + (if (c.evict id).1 then 1 else 0) = c.held.length := by
    change _ + (if c.contains id then 1 else 0) = _
    rw [← length_ids, ids_evict, ← length_ids]
    by_cases mem : id ∈ c.ids
    · rw [if_pos (c.contains_iff id |>.2 mem)]
      exact length_filter_ne nodup mem
    · rw [if_neg fun there => mem (c.contains_iff id |>.1 there), filter_ne_of_not_mem mem]
      rfl
  have same : (c.evict id).2.compiled = c.compiled := rfl
  have same' : (c.evict id).2.evictions = c.evictions := rfl
  unfold Balanced
  omega

theorem Stocked.balanced_use (h : c.Stocked a room known) (u : Use) :
    c.Balanced (c.use u).2 (if (c.use u).1.dropped then 1 else 0) := by
  cases u with
  | load source =>
    change c.Balanced (c.load source).2 0
    cases c.loads source with
    | illegal _ eq => exact eq ▸ rfl
    | found _ contract mem _ eq => exact eq ▸ balanced_touch h.nodup mem
    | refused _ e _ eq => exact eq ▸ rfl
    | admitted _ contract _ new eq => exact eq ▸ h.balanced_hold new
  | get id =>
    change c.Balanced (c.get id).2 0
    rcases c.get_eq id with ⟨contract, mem, -, got⟩ | ⟨-, got⟩
    · exact got ▸ balanced_touch h.nodup mem
    · exact got ▸ rfl
  | evict id => exact balanced_evict h.nodup id
  | contains id => exact rfl

/-- A use that `looks` for a contract is counted in `hits` or in `misses`, and no other
one is. -/
theorem Stocked.looks_use (h : c.Stocked a room known) (u : Use) :
    (c.use u).2.hits + (c.use u).2.misses =
      c.hits + c.misses + if u.looks a then 1 else 0 := by
  have hit (contract : Contract) :
      (c.touch contract).hits + (c.touch contract).misses = c.hits + c.misses + 1 :=
    Nat.add_right_comm ..
  cases u with
  | load source =>
    change (c.load source).2.hits + (c.load source).2.misses =
      c.hits + c.misses + if a.legalSize source then 1 else 0
    rw [← h.admission]
    cases c.loads source with
    | illegal size eq =>
      rw [eq, size]
      rfl
    | found size contract _ _ eq =>
      rw [eq, size]
      exact hit contract
    | refused size e _ eq =>
      rw [eq, size]
      rfl
    | admitted size contract _ _ eq =>
      rw [eq, size]
      rfl
  | get id =>
    change (c.get id).2.hits + (c.get id).2.misses = c.hits + c.misses + 1
    rcases c.get_eq id with ⟨contract, -, -, got⟩ | ⟨-, got⟩
    · rw [got]
      exact hit contract
    · rw [got]
      rfl
  | evict id => rfl
  | contains id => rfl

/-! ## Any number of uses -/

theorem stocked_new (a : Admission) (capacity : Nat) (known : List UInt8 → Prop) :
    (new a capacity).Stocked a (max capacity 1) known where
  admission := rfl
  capacity := rfl
  held := List.forall_mem_nil _
  nodup := List.nodup_nil
  fits := Nat.zero_le _

theorem Stocked.after (h : c.Stocked a room known) {uses : List Use}
    (loads : ∀ source, .load source ∈ uses → known source) :
    (c.after uses).Stocked a room known := by
  induction uses generalizing c with
  | nil => exact h
  | cons u rest ih =>
    exact ih (h.use fun source same => loads source (same ▸ List.mem_cons_self))
      fun source mem => loads source (List.mem_cons_of_mem u mem)

theorem Stocked.ids_after (h : c.Stocked a room known) (distinct : Distinct known)
    {uses : List Use} (loads : ∀ source, .load source ∈ uses → known source) :
    (c.after uses).ids = uses.foldl (recency a room) c.ids := by
  induction uses generalizing c with
  | nil => rfl
  | cons u rest ih =>
    have first : ∀ source, u = .load source → known source :=
      fun source same => loads source (same ▸ List.mem_cons_self)
    rw [List.foldl_cons, ← h.ids_use distinct first]
    exact ih (h.use first) fun source mem => loads source (List.mem_cons_of_mem u mem)

theorem Stocked.counts_after (h : c.Stocked a room known) {uses : List Use}
    (loads : ∀ source, .load source ∈ uses → known source) :
    c.Balanced (c.after uses) ((c.answers uses).countP Answer.dropped) ∧
      (c.after uses).hits + (c.after uses).misses =
        c.hits + c.misses + uses.countP (Use.looks a) := by
  induction uses generalizing c with
  | nil => exact ⟨rfl, rfl⟩
  | cons u rest ih =>
    have next := h.use fun source same => loads source (same ▸ List.mem_cons_self)
    obtain ⟨balanced, looks⟩ := ih next fun source mem => loads source (List.mem_cons_of_mem u mem)
    have balanced' := h.balanced_use u
    have looks' := h.looks_use u
    have whole : c.after (u :: rest) = (c.use u).2.after rest := rfl
    rw [answers, List.countP_cons, List.countP_cons, whole]
    unfold Balanced at balanced balanced' ⊢
    omega

end Stocked

/-- **The order of use, exactly.**  Whatever `uses` are made of a new cache, if the
sources that are loaded are `Distinct`: every `load` answers as `Admission.accept` does,
as if the cache had seen no other source; the cache holds the contracts used last, in the
order that `recency` gives; every contract that was `compiled` is held, went because there
were too many, or was dropped; and every use that `looks` is counted in `hits` or in
`misses`. -/
theorem recency_exact (a : Admission) (capacity : Nat) (uses : List Use)
    (distinct : Distinct fun source => .load source ∈ uses) :
    let c := (new a capacity).after uses
    (∀ before source rest, uses = before ++ .load source :: rest →
      (((new a capacity).after before).load source).1 = ((new a capacity).load source).1) ∧
      c.ids = uses.foldl (recency a (max capacity 1)) [] ∧
      c.compiled = c.held.length + c.evictions +
        ((new a capacity).answers uses).countP Answer.dropped ∧
      c.hits + c.misses = uses.countP (Use.looks a) := by
  have fresh := stocked_new a capacity fun source => .load source ∈ uses
  have all : ∀ source, .load source ∈ uses → .load source ∈ uses := fun _ => id
  obtain ⟨balanced, looks⟩ := fresh.counts_after all
  refine ⟨fun before source rest whole => ?_, fresh.ids_after distinct all, ?_, ?_⟩
  · have known : Use.load source ∈ uses := whole ▸ List.mem_append_right _ List.mem_cons_self
    have first : ∀ source, .load source ∈ before → .load source ∈ uses := fun source mem =>
      whole ▸ List.mem_append_left _ mem
    have earlier := fresh.after first
    rw [earlier.load_eq distinct known, fresh.load_eq distinct known]
  · unfold Balanced at balanced
    change _ + 0 + 0 = 0 + _ + _ + _ at balanced
    omega
  · change _ = 0 + 0 + _ at looks
    omega

end Cache

namespace SingleEntryCache

/-- Answers the name of the method. -/
def echo : List UInt8 := Text.utf8 "function Invoke(m)\x7breturn m;\x7d"

def other : List UInt8 := Text.utf8 "function Invoke(m)\x7breturn 1;\x7d"

/-- Needs what it may not have. -/
def denied : List UInt8 := Text.utf8 "function Invoke(m)\x7breturn Log(m);\x7d"

open Cache (Use)

/-- No contract may call `Log`. -/
def admission : Admission := { forbidden := ["Log"] }

/-- There is room for one contract.  The second goes in for the first, is dropped, and the
first comes back. -/
def uses : List Use :=
  [.load echo, .load other, .get (.ofSource echo), .load denied, .evict (.ofSource other),
    .load echo]

theorem distinct : Cache.Distinct fun source => .load source ∈ uses := by
  have apart : ∀ s ∈ [echo, other, denied], ∀ t ∈ [echo, other, denied],
      ContractId.ofSource s = ContractId.ofSource t → s = t := by decide +kernel
  have loaded : ∀ source, .load source ∈ uses → source ∈ [echo, other, denied] := by
    intro source mem
    simp only [uses, List.mem_cons, Use.load.injEq, reduceCtorEq, List.not_mem_nil, or_false,
      false_or] at mem
    rcases mem with same | same | same | same <;> simp [same]
  exact fun s t hs ht => apart s (loaded s hs) t (loaded t ht)

theorem uses_exact : (Cache.Distinct fun source => .load source ∈ uses) ∧
    let c := (Cache.new admission 0).after uses
    ((((Cache.new admission 0).after (uses.take 5)).load echo).1 =
        ((Cache.new admission 0).load echo).1) ∧
      c.ids = [.ofSource echo] ∧ c.compiled = 3 ∧ c.hits + c.misses = 5 := by
  obtain ⟨fresh, ids, compiled, looks⟩ := Cache.recency_exact admission 0 uses distinct
  dsimp only
  rw [ids, compiled, looks]
  exact ⟨distinct, fresh (uses.take 5) echo [] rfl, by decide +kernel⟩

end SingleEntryCache

end LedgerScript
