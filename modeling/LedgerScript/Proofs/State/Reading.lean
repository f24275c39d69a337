import LedgerScript.Proofs.Sequence
import LedgerScript.State.Access

/-!
# What a view has seen

A view remembers what committed state held under the keys that it looked at.
Committed state in which all of that still holds looks the same through the view
(`View.look_congr`), and only such a state takes the view's commit
(`Access.commit_eq_ok_iff`).
-/

namespace LedgerScript

/-! ## Overlays -/

namespace Committed

theorem overlay_empty (entries : Committed) : entries.overlay ∅ = entries := by
  refine Std.ExtTreeMap.ext_getElem? fun key => ?_
  rw [getElem?_overlay, Std.ExtTreeMap.getElem?_empty]

/-- `overlay` of one more pending change is one more change of what the others leave. -/
theorem overlay_insert (entries : Committed) (w : WriteSet) (key : StateKey) (op : WriteOp) :
    entries.overlay (w.insert key op) = (entries.overlay w).change key op := by
  refine Std.ExtTreeMap.ext_getElem? fun other => ?_
  rw [getElem?_overlay, getElem?_change, getElem?_overlay, Std.ExtTreeMap.getElem?_insert]
  by_cases same : key = other
  · rw [if_pos (Std.compare_eq_iff_eq.2 same), if_pos same]
  · rw [if_neg fun eq => same (Std.compare_eq_iff_eq.1 eq), if_neg same]

end Committed

/-! ## Keys -/

/-- The name of the key belongs to the host. -/
def StateKey.reserved (key : StateKey) : Bool :=
  reservedStart.toList.isPrefixOf key.name.toList

theorem ownKey_eq_ok {own : Namespace} {raw name : String} {maxLength : Nat} {key : StateKey}
    (h : ownKey own raw name maxLength = .ok key) :
    key.space = own ∧ key.reserved = false := by
  unfold ownKey at h
  split at h
  · cases h
  · rename_i free
    split at h
    · cases h
    · split at h
      · cases h
      · cases h
        exact ⟨rfl, Bool.eq_false_iff.2 free⟩

/-- A key that `resolveKey` gives lies in the namespace of its contract, and is not
`reserved`. -/
theorem resolveKey_eq_ok {own : Namespace} {raw : String} {maxLength : Nat} {key : StateKey}
    (h : resolveKey own raw maxLength = .ok key) :
    key.space = own ∧ key.reserved = false := by
  unfold resolveKey at h
  split at h
  · exact ownKey_eq_ok h
  · split at h
    · exact ownKey_eq_ok h
    · split at h <;> cases h

/-! ## Reads that hold -/

/-- `reads.Holds entries`: what was seen is what `entries` holds. -/
def ReadSet.Holds (reads : ReadSet) (entries : Committed) : Prop :=
  ∀ (key : StateKey) (seen : Option (List UInt8)), reads[key]? = some seen → entries[key]? = seen

theorem ReadSet.holds_empty (entries : Committed) : ReadSet.Holds ∅ entries := by
  intro key seen h
  simp at h

theorem View.getElem?_reads_record (v : View) (key other : StateKey)
    (bytes : Option (List UInt8)) :
    (v.record key bytes).reads[other]? =
      if key = other then some (v.reads[key]?.getD bytes) else v.reads[other]? := by
  simp only [View.record, Std.ExtTreeMap.getElem?_insertIfNew, Std.compare_eq_iff_eq,
    Std.ExtTreeMap.mem_iff_isSome_getElem?]
  by_cases h : key = other
  · subst h
    cases v.reads[key]? <;> simp
  · simp [h]

/-- What is in `reads` stays there when `record` adds to it. -/
theorem View.reads_record_of_some {v : View} {key other : StateKey} {seen : Option (List UInt8)}
    (bytes : Option (List UInt8)) (h : v.reads[other]? = some seen) :
    (v.record key bytes).reads[other]? = some seen := by
  rw [View.getElem?_reads_record]
  split
  · rename_i e
    rw [e, h]
    rfl
  · exact h

/-- `Holds` when a look at committed state is recorded. -/
theorem ReadSet.Holds.record {v : View} {entries : Committed} (h : v.reads.Holds entries)
    (key : StateKey) : (v.record key entries[key]?).reads.Holds entries := by
  intro other seen hs
  rw [View.getElem?_reads_record] at hs
  split at hs
  · rename_i e
    subst e
    cases hr : v.reads[key]? with
    | none => simpa [hr] using hs
    | some old =>
      rw [hr] at hs
      rw [h key old hr]
      simpa using hs
  · exact h other seen hs

/-! ## Looks -/

/-- A view after a look at a key: what it did not know it remembers. -/
def View.look (v : View) (entries : Committed) (key : StateKey) : View :=
  if (v.known? key).isSome then v else v.record key entries[key]?

/-- The bytes that a look finds. -/
def View.found (v : View) (entries : Committed) (key : StateKey) : Option (List UInt8) :=
  (v.known? key).getD entries[key]?

theorem View.look_of_known {v : View} {key : StateKey} (h : (v.known? key).isSome)
    (entries : Committed) : v.look entries key = v := by
  unfold View.look
  rw [if_pos h]

theorem View.look_of_unknown {v : View} {key : StateKey} (h : v.known? key = none)
    (entries : Committed) : v.look entries key = v.record key entries[key]? := by
  unfold View.look
  rw [h]
  rfl

theorem View.look_cases (v : View) (entries : Committed) (key : StateKey) :
    v.look entries key = v ∨ v.look entries key = v.record key entries[key]? := by
  unfold View.look
  split
  · exact .inl rfl
  · exact .inr rfl

theorem View.readOnly_look (v : View) (entries : Committed) (key : StateKey) :
    (v.look entries key).readOnly = v.readOnly := by
  rcases v.look_cases entries key with e | e <;> rw [e]
  rfl

theorem View.writes_look (v : View) (entries : Committed) (key : StateKey) :
    (v.look entries key).writes = v.writes := by
  rcases v.look_cases entries key with e | e <;> rw [e]
  rfl

theorem View.reads_look_of_some {v : View} {other : StateKey} {seen : Option (List UInt8)}
    (entries : Committed) (key : StateKey) (h : v.reads[other]? = some seen) :
    (v.look entries key).reads[other]? = some seen := by
  rcases v.look_cases entries key with e | e <;> rw [e]
  · exact h
  · exact View.reads_record_of_some _ h

theorem ReadSet.Holds.look {v : View} {entries : Committed} (h : v.reads.Holds entries)
    (key : StateKey) : (v.look entries key).reads.Holds entries := by
  rcases v.look_cases entries key with e | e <;> rw [e]
  · exact h
  · exact h.record key

/-- `look` is the same over committed state that `Holds` what has been seen, this look
included. -/
theorem View.look_congr {v : View} {entries other : Committed} {key : StateKey}
    (h : (v.look entries key).reads.Holds other) :
    v.look other key = v.look entries key ∧ v.found other key = v.found entries key := by
  cases hk : v.known? key with
  | some bytes =>
    have known : (v.known? key).isSome := by rw [hk]; rfl
    rw [View.look_of_known known, View.look_of_known known]
    unfold View.found
    rw [hk]
    exact ⟨rfl, rfl⟩
  | none =>
    have unread : v.reads[key]? = none := by
      unfold View.known? at hk
      split at hk
      · cases hk
      · exact hk
    rw [View.look_of_unknown hk] at h
    have same : other[key]? = entries[key]? := by
      refine h key _ ?_
      rw [View.getElem?_reads_record, if_pos rfl, unread]
      rfl
    rw [View.look_of_unknown hk, View.look_of_unknown hk]
    unfold View.found
    rw [same]
    exact ⟨rfl, rfl⟩

/-- What is `found` is what would be committed if the writes took effect. -/
theorem View.found_of_holds {v : View} {entries : Committed} (h : v.reads.Holds entries)
    (key : StateKey) : v.found entries key = (entries.overlay v.writes)[key]? := by
  rw [Committed.getElem?_overlay]
  unfold found known?
  cases v.writes[key]? with
  | some op => rfl
  | none =>
    dsimp only
    cases seen : v.reads[key]? with
    | none => rfl
    | some bytes => exact (h key bytes seen).symm

namespace Access

/-! ## Accesses -/

theorem readThrough_eq (entries : Committed) (key : StateKey) (view : View) :
    readThrough entries key view = .ok (view.found entries key) (view.look entries key) := by
  unfold readThrough View.found View.look
  cases view.known? key <;> rfl

/-- The value that stored bytes say; where there are none it is null. -/
def valueOf (key : StateKey) : Option (List UInt8) → Except ContractError Value
  | none => .ok .null
  | some bytes => decodeValue key bytes

theorem get_of_error {entries : Committed} {limits : StateLimits} {own : Namespace}
    {raw : String} {view : View} {e : ContractError}
    (h : resolveKey own raw limits.maxKeyLength.toNat = .error e) :
    get entries limits own raw view = .error e view := by
  unfold get
  rw [h]
  exact bind_of_error rfl

theorem get_of_ok {entries : Committed} {limits : StateLimits} {own : Namespace}
    {raw : String} {view : View} {key : StateKey}
    (h : resolveKey own raw limits.maxKeyLength.toNat = .ok key) :
    get entries limits own raw view =
      Viewing.ofExcept (valueOf key (view.found entries key)) (view.look entries key) := by
  unfold get
  rw [h, bind_of_ok (x := Viewing.ofExcept (.ok key)) rfl, bind_of_ok (readThrough_eq ..)]
  cases view.found entries key <;> rfl

theorem checkWriteCount_cases (limits : StateLimits) (key : StateKey) (view : View) :
    checkWriteCount limits key view = .ok () view ∨
      ∃ e, checkWriteCount limits key view = .error e view := by
  unfold checkWriteCount
  split
  · exact .inl rfl
  · split
    · exact .inl rfl
    · exact .inr ⟨_, rfl⟩

/-- `set` that is refused leaves the view alone; any other is pending under a key of the
contract that is not `reserved`. -/
theorem set_cases (limits : StateLimits) (own : Namespace) (raw : String) (v : Value)
    (view : View) :
    (∃ e, set limits own raw v view = .error e view) ∨
      ∃ key bytes, key.space = own ∧ key.reserved = false ∧
        set limits own raw v view = .ok bytes.length (view.put key bytes) := by
  unfold set
  cases hk : resolveKey own raw limits.maxKeyLength.toNat with
  | error e => exact .inl ⟨e, bind_of_error rfl⟩
  | ok key =>
    obtain ⟨space, free⟩ := resolveKey_eq_ok hk
    rw [bind_of_ok (x := Viewing.ofExcept (.ok key)) rfl]
    cases encodeValue v limits.maxValueSize.toNat with
    | error f => exact .inl ⟨.script f, bind_of_error rfl⟩
    | ok bytes =>
      rw [bind_of_ok (x := Viewing.ofExcept (Except.mapError .script (.ok bytes))) rfl]
      rcases checkWriteCount_cases limits key view with h | ⟨e, h⟩
      · exact .inr ⟨key, bytes, space, free, bind_of_ok h⟩
      · exact .inl ⟨e, bind_of_error h⟩

/-- `delete` that is refused leaves the view alone; any other is pending like a write. -/
theorem delete_cases (limits : StateLimits) (own : Namespace) (raw : String) (view : View) :
    (∃ e, delete limits own raw view = .error e view) ∨
      ∃ key, key.space = own ∧ key.reserved = false ∧
        delete limits own raw view = .ok () (view.delete key) := by
  unfold delete
  cases hk : resolveKey own raw limits.maxKeyLength.toNat with
  | error e => exact .inl ⟨e, bind_of_error rfl⟩
  | ok key =>
    obtain ⟨space, free⟩ := resolveKey_eq_ok hk
    rw [bind_of_ok (x := Viewing.ofExcept (.ok key)) rfl]
    rcases checkWriteCount_cases limits key view with h | ⟨e, h⟩
    · exact .inr ⟨key, space, free, bind_of_ok h⟩
    · exact .inl ⟨e, bind_of_error h⟩

/-! ## Commit -/

theorem staleRead?_eq_none_iff {entries : Committed} {reads : ReadSet} :
    staleRead? entries reads = none ↔ reads.Holds entries := by
  unfold staleRead?
  rw [Option.map_eq_none_iff, List.find?_eq_none]
  constructor
  · intro h key seen hs
    have := h (key, seen) (Std.ExtTreeMap.mem_toList_iff_getElem?_eq_some.2 hs)
    simpa using this
  · intro h e he
    obtain ⟨key, seen⟩ := e
    simpa using h key seen (Std.ExtTreeMap.mem_toList_iff_getElem?_eq_some.1 he)

/-- Makes writes take effect if there are any. -/
def flush (store : Store) (w : WriteSet) : Except StateError Store :=
  if w.isEmpty then .ok store else store.commit w

/-- `commit` of a writable view whose reads `Holds` is `flush` of its writes. -/
theorem commit_of_holds {store : Store} {view : View} (writable : view.readOnly = false)
    (h : view.reads.Holds store.entries) :
    commit store view = ((flush store view.writes).mapError .state).map (·, view.writes) := by
  unfold commit flush
  rw [writable, staleRead?_eq_none_iff.2 h]
  simp only [Bool.false_eq_true, ↓reduceIte]
  split
  · rfl
  · cases store.commit view.writes <;> rfl

theorem commit_eq_ok_iff {store after : Store} {view : View} {flushed : WriteSet} :
    commit store view = .ok (after, flushed) ↔
      view.readOnly = false ∧ view.reads.Holds store.entries ∧ flushed = view.writes ∧
        flush store view.writes = .ok after := by
  constructor
  · intro h
    have writable : view.readOnly = false := by
      cases hr : view.readOnly with
      | false => rfl
      | true =>
        unfold commit at h
        rw [hr] at h
        cases h
    have holds : view.reads.Holds store.entries := by
      rw [← staleRead?_eq_none_iff]
      cases hs : staleRead? store.entries view.reads with
      | none => rfl
      | some key =>
        unfold commit at h
        rw [writable, hs] at h
        cases h
    rw [commit_of_holds writable holds] at h
    cases hf : flush store view.writes with
    | error e =>
      rw [hf] at h
      cases h
    | ok next =>
      rw [hf] at h
      cases h
      exact ⟨writable, holds, rfl, rfl⟩
  · rintro ⟨writable, holds, rfl, hf⟩
    rw [commit_of_holds writable holds, hf]
    rfl

theorem flush_cases {store after : Store} {w : WriteSet} (h : flush store w = .ok after) :
    w = ∅ ∧ after = store ∨ store.commit w = .ok after := by
  unfold flush at h
  split at h
  · rename_i empty
    cases h
    exact .inl ⟨Std.ExtTreeMap.isEmpty_iff.1 empty, rfl⟩
  · exact .inr h

/-- `flush` succeeds if there are no writes or `Store.commit` does. -/
theorem exists_flush_iff {store : Store} {w : WriteSet} :
    (∃ after, flush store w = .ok after) ↔ w = ∅ ∨ ∃ after, store.commit w = .ok after := by
  constructor
  · rintro ⟨after, h⟩
    exact (flush_cases h).imp And.left fun committed => ⟨after, committed⟩
  · unfold flush
    rintro (rfl | ⟨after, h⟩)
    · exact ⟨store, rfl⟩
    · split
      · exact ⟨store, rfl⟩
      · exact ⟨after, h⟩

theorem entries_flush {store after : Store} {w : WriteSet} (h : flush store w = .ok after) :
    after.entries = store.entries.overlay w := by
  rcases flush_cases h with ⟨rfl, rfl⟩ | committed
  · rfl
  · unfold Store.commit at committed
    split at committed <;> cases committed
    rfl

end Access

end LedgerScript
