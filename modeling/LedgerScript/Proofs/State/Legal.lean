import LedgerScript.Proofs.State.Reading
import LedgerScript.Proofs.Value.RoundTrip
import LedgerScript.Proofs.Value.Sorted

/-!
# Legal entries

What scripts store is legal (`StateLimits.Legal`): its key is within the limits
and not the host's, and its bytes are the canonical text of a value that may be
stored.  Legal entries are read back without a fault (`Access.get_legal`).
-/

namespace LedgerScript

/-- An error that a call may end with when the state that it runs over and the
contracts that it finds are as they should be. -/
def ContractError.Benign : ContractError → Prop
  | .load _ | .state (.corrupted _ _) => False
  | _ => True

/-- An entry that a script may have stored. -/
structure StateLimits.Legal (limits : StateLimits) (key : StateKey) (bytes : List UInt8) :
    Prop where
  free : key.reserved = false
  named : key.name ≠ ""
  short : key.name.utf8ByteSize ≤ limits.maxKeyLength.toNat
  canonical : ∃ v : Value, v.Sorted ∧ v.depth ≤ maxValueDepth ∧ bytes = Text.utf8 v.canonical
  small : bytes.length ≤ limits.maxValueSize.toNat

namespace StateLimits

variable {limits : StateLimits}

theorem Legal.decodes {key : StateKey} {bytes : List UInt8} (h : limits.Legal key bytes) :
    ∃ v : Value, v.Sorted ∧ decodeValue key bytes = .ok v := by
  obtain ⟨v, sorted, deep, rfl⟩ := h.canonical
  exact ⟨v, sorted, decodeValue_canonical sorted deep key⟩

end StateLimits

theorem named_of_ownKey {own : Namespace} {raw name : String} {maxLength : Nat} {key : StateKey}
    (h : ownKey own raw name maxLength = .ok key) :
    key.name ≠ "" ∧ key.name.utf8ByteSize ≤ maxLength := by
  unfold ownKey at h
  split at h
  · cases h
  · split at h
    · cases h
    · rename_i nonempty
      split at h
      · cases h
      · rename_i short
        cases h
        exact ⟨nonempty, Nat.le_of_not_lt short⟩

theorem named_of_resolveKey {own : Namespace} {raw : String} {maxLength : Nat} {key : StateKey}
    (h : resolveKey own raw maxLength = .ok key) :
    key.name ≠ "" ∧ key.name.utf8ByteSize ≤ maxLength := by
  unfold resolveKey at h
  split at h
  · exact named_of_ownKey h
  · split at h
    · exact named_of_ownKey h
    · split at h <;> cases h

theorem benign_of_ownKey {own : Namespace} {raw name : String} {maxLength : Nat}
    {e : ContractError} (h : ownKey own raw name maxLength = .error e) : e.Benign := by
  unfold ownKey at h
  split at h
  · cases h
    trivial
  · split at h
    · cases h
      trivial
    · split at h <;> cases h
      trivial

theorem benign_of_resolveKey {own : Namespace} {raw : String} {maxLength : Nat}
    {e : ContractError} (h : resolveKey own raw maxLength = .error e) : e.Benign := by
  unfold resolveKey at h
  split at h
  · exact benign_of_ownKey h
  · split at h
    · exact benign_of_ownKey h
    · split at h <;> cases h <;> trivial

/-- What `encodeValue` makes of a `Sorted` value, under a key that `resolveKey` gives, is
`Legal`. -/
theorem legal_of_encodeValue {limits : StateLimits} {own : Namespace} {raw : String}
    {key : StateKey} (resolved : resolveKey own raw limits.maxKeyLength.toNat = .ok key)
    {v : Value} (sorted : v.Sorted) {bytes : List UInt8}
    (encoded : encodeValue v limits.maxValueSize.toNat = .ok bytes) :
    limits.Legal key bytes := by
  obtain ⟨deep, rfl, small⟩ := encodeValue_eq_ok encoded
  obtain ⟨named, short⟩ := named_of_resolveKey resolved
  exact ⟨(resolveKey_eq_ok resolved).2, named, short, ⟨v, sorted, deep, rfl⟩, small⟩

namespace View

/-- The values that are pending are legal entries, and what has been seen is
what is committed. -/
structure Legal (v : View) (limits : StateLimits) (entries : Committed) : Prop where
  reads : v.reads.Holds entries
  writes : ∀ (key : StateKey) (bytes : List UInt8), v.writes[key]? = some (.put bytes) →
    limits.Legal key bytes

variable {v : View} {limits : StateLimits} {entries : Committed}

theorem Legal.look (h : v.Legal limits entries) (key : StateKey) :
    (v.look entries key).Legal limits entries :=
  ⟨h.reads.look key, by rw [View.writes_look]; exact h.writes⟩

theorem Legal.put (h : v.Legal limits entries) {key : StateKey} {bytes : List UInt8}
    (legal : limits.Legal key bytes) : (v.put key bytes).Legal limits entries := by
  refine ⟨h.reads, fun other found pending => ?_⟩
  unfold View.put at pending
  rw [Std.ExtTreeMap.getElem?_insert] at pending
  split at pending
  · rename_i same
    cases pending
    rw [← Std.compare_eq_iff_eq.1 same]
    exact legal
  · exact h.writes other found pending

theorem Legal.delete (h : v.Legal limits entries) (key : StateKey) :
    (v.delete key).Legal limits entries := by
  refine ⟨h.reads, fun other found pending => ?_⟩
  unfold View.delete at pending
  rw [Std.ExtTreeMap.getElem?_insert] at pending
  split at pending
  · cases pending
  · exact h.writes other found pending

theorem Legal.rollback {before : View} (h : v.Legal limits entries)
    (hb : before.Legal limits entries) : (v.rollback before.writes).Legal limits entries :=
  ⟨h.reads, hb.writes⟩

/-- What a `Legal` view finds under a key that is not `reserved` is legal. -/
theorem Legal.found (h : v.Legal limits entries)
    (committed : ∀ key bytes, entries[key]? = some bytes → key.reserved = false →
      limits.Legal key bytes)
    {key : StateKey} (free : key.reserved = false) {bytes : List UInt8}
    (eq : v.found entries key = some bytes) : limits.Legal key bytes := by
  unfold View.found View.known? at eq
  cases pending : v.writes[key]? with
  | some op =>
    rw [pending] at eq
    cases op with
    | put written =>
      cases eq
      exact h.writes key _ pending
    | delete => cases eq
  | none =>
    rw [pending] at eq
    cases seen : v.reads[key]? with
    | some old =>
      rw [seen] at eq
      have holds := h.reads key old seen
      exact committed key bytes (holds.trans eq) free
    | none =>
      rw [seen] at eq
      exact committed key bytes eq free

end View

/-! ## Accesses -/

namespace Access

variable {limits : StateLimits} (own : Namespace) {entries : Committed} {view : View}

/-- `get` through a `Legal` view gives a `Sorted` value, or fails with an error that is
`Benign`. -/
theorem get_legal (legal : view.Legal limits entries)
    (committed : ∀ key bytes, entries[key]? = some bytes → key.reserved = false →
      limits.Legal key bytes) (raw : String) :
    (∃ v next, get entries limits own raw view = .ok v next ∧ next.Legal limits entries ∧
        v.Sorted) ∨
      ∃ e, get entries limits own raw view = .error e view ∧ e.Benign := by
  cases hk : resolveKey own raw limits.maxKeyLength.toNat with
  | error e => exact .inr ⟨e, get_of_error hk, benign_of_resolveKey hk⟩
  | ok key =>
    have free := (resolveKey_eq_ok hk).2
    have got : get entries limits own raw view =
        Viewing.ofExcept (valueOf key (view.found entries key)) (view.look entries key) :=
      get_of_ok hk
    cases found : view.found entries key with
    | none =>
      rw [found] at got
      exact .inl ⟨.null, _, got, legal.look key, trivial⟩
    | some bytes =>
      obtain ⟨v, sorted, decoded⟩ := (legal.found committed free found).decodes
      rw [found, valueOf, decoded] at got
      exact .inl ⟨v, _, got, legal.look key, sorted⟩

theorem checkWriteCount_benign (limits : StateLimits) (key : StateKey) (view : View) :
    checkWriteCount limits key view = .ok () view ∨
      ∃ e, checkWriteCount limits key view = .error e view ∧ e.Benign := by
  unfold checkWriteCount
  split
  · exact .inl rfl
  · split
    · exact .inl rfl
    · exact .inr ⟨_, rfl, trivial⟩

/-- `set` leaves the view `Legal`, or fails with an error that is `Benign` and leaves it
as it is. -/
theorem set_legal (legal : view.Legal limits entries) {v : Value} (sorted : v.Sorted)
    (raw : String) :
    (∃ n next, set limits own raw v view = .ok n next ∧ next.Legal limits entries) ∨
      ∃ e, set limits own raw v view = .error e view ∧ e.Benign := by
  unfold set
  cases hk : resolveKey own raw limits.maxKeyLength.toNat with
  | error e => exact .inr ⟨e, bind_of_error rfl, benign_of_resolveKey hk⟩
  | ok key =>
    rw [bind_of_ok (x := Viewing.ofExcept (.ok key)) rfl]
    cases hb : encodeValue v limits.maxValueSize.toNat with
    | error f => exact .inr ⟨.script f, bind_of_error rfl, trivial⟩
    | ok bytes =>
      have entry := legal_of_encodeValue hk sorted hb
      rw [bind_of_ok (x := Viewing.ofExcept (Except.mapError .script (.ok bytes))) rfl]
      rcases checkWriteCount_benign limits key view with h | ⟨e, h, benign⟩
      · exact .inl ⟨_, _, bind_of_ok h, legal.put entry⟩
      · exact .inr ⟨e, bind_of_error h, benign⟩

theorem delete_legal (legal : view.Legal limits entries) (raw : String) :
    (∃ next, delete limits own raw view = .ok () next ∧ next.Legal limits entries) ∨
      ∃ e, delete limits own raw view = .error e view ∧ e.Benign := by
  unfold delete
  cases hk : resolveKey own raw limits.maxKeyLength.toNat with
  | error e => exact .inr ⟨e, bind_of_error rfl, benign_of_resolveKey hk⟩
  | ok key =>
    rw [bind_of_ok (x := Viewing.ofExcept (.ok key)) rfl]
    rcases checkWriteCount_benign limits key view with h | ⟨e, h, benign⟩
    · exact .inl ⟨_, bind_of_ok h, legal.delete key⟩
    · exact .inr ⟨e, bind_of_error h, benign⟩

end Access

end LedgerScript
