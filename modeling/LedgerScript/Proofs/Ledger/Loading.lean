import LedgerScript.Ledger.Cache
import LedgerScript.Proofs.Sequence

/-!
# Looking contracts up and loading them

What can become of a cache when a contract is looked up (`Cache.get_cases`) or
loaded (`Cache.load_cases`): looking brings nothing in, and loading brings in what
the source is admitted as.
-/

namespace LedgerScript

namespace Admission

variable {a : Admission} {source : List UInt8} {contract : Contract}

theorem compile_of_accept (h : a.accept source = .ok contract) :
    a.compile source = .ok contract := by
  unfold accept at h
  split at h
  · exact h
  · cases h

theorem id_of_accept (h : a.accept source = .ok contract) :
    contract.id = ContractId.ofSource source := by
  have compiled := compile_of_accept h
  unfold compile at compiled
  split at compiled
  · cases compiled
  · rename_i text spelled
    split at compiled
    · cases compiled
    · rename_i made parsed
      split at compiled <;> cases compiled
      unfold Contract.ofSource at parsed
      obtain ⟨_, -, eq⟩ := except_bind_eq_ok parsed
      cases eq
      rw [Text.utf8_of_ofUtf8 spelled]

theorem text_of_accept (h : a.accept source = .ok contract) :
    ∃ text, Text.ofUtf8 source = .ok text := by
  have compiled := compile_of_accept h
  unfold compile at compiled
  split at compiled
  · cases compiled
  · rename_i text spelled
    exact ⟨text, spelled⟩

end Admission

namespace Cache

variable {c : Cache}

theorem mem_of_mem_without {id : ContractId} {contract : Contract} (h : contract ∈ c.without id) :
    contract ∈ c.held ∧ contract.id ≠ id := by
  obtain ⟨mem, other⟩ := List.mem_filter.1 h
  exact ⟨mem, of_decide_eq_true other⟩

/-- `get` finds a contract of the identity if the cache holds one, and brings nothing in. -/
theorem get_cases (c : Cache) (id : ContractId) :
    (c.get id).2.admission = c.admission ∧
      (∀ contract ∈ (c.get id).2.held, contract ∈ c.held) ∧
      ((∃ contract ∈ c.held, contract.id = id ∧ (c.get id).1 = some contract) ∨
        (∀ contract ∈ c.held, contract.id ≠ id) ∧ (c.get id).1 = none) := by
  unfold get
  split
  · rename_i found at_hand
    have mem := List.mem_of_find?_eq_some at_hand
    have same : found.id = id := by simpa using List.find?_some at_hand
    refine ⟨rfl, fun contract held => ?_, .inl ⟨found, mem, same, rfl⟩⟩
    rcases List.mem_cons.1 held with rfl | rest
    · exact mem
    · exact (mem_of_mem_without rest).1
  · rename_i missing
    refine ⟨rfl, fun _ mem => mem, .inr ⟨fun contract mem same => ?_, rfl⟩⟩
    exact List.find?_eq_none.1 missing contract mem (decide_eq_true same)

theorem mem_hold {contract other : Contract} (h : other ∈ (c.hold contract).held) :
    other = contract ∨ other ∈ c.held := by
  rcases List.mem_cons.1 (List.mem_of_mem_take h) with rfl | rest
  · exact .inl rfl
  · exact .inr (mem_of_mem_without rest).1

/-- `load` finds the contract of a source in the cache, or does `accept` the source and
brings in its contract alone. -/
theorem load_cases (c : Cache) (source : List UInt8) :
    (c.load source).2.admission = c.admission ∧
      ((∃ contract ∈ c.held, contract.id = ContractId.ofSource source ∧
          (c.load source).1 = .ok contract ∧
          ∀ other ∈ (c.load source).2.held, other ∈ c.held) ∨
        (c.load source).1 = c.admission.accept source ∧
          ∀ other ∈ (c.load source).2.held,
            other ∈ c.held ∨ c.admission.accept source = .ok other) := by
  have looked := c.get_cases (ContractId.ofSource source)
  unfold load Admission.accept
  split
  · generalize c.get (ContractId.ofSource source) = looking at looked ⊢
    obtain ⟨first, next⟩ := looking
    obtain ⟨admission, old, found⟩ := looked
    dsimp only at admission old found ⊢
    rcases found with ⟨contract, mem, same, found⟩ | ⟨missing, found⟩
    · cases found
      exact ⟨admission, .inl ⟨contract, mem, same, rfl, old⟩⟩
    · cases found
      dsimp only
      rw [admission]
      cases c.admission.compile source with
      | error e => exact ⟨admission, .inr ⟨rfl, fun other mem => .inl (old other mem)⟩⟩
      | ok contract =>
        refine ⟨admission, .inr ⟨rfl, fun other mem => ?_⟩⟩
        rcases mem_hold mem with rfl | kept
        · exact .inr rfl
        · exact .inl (old other kept)
  · exact ⟨rfl, .inr ⟨rfl, fun other mem => .inl mem⟩⟩

/-- A source whose contract the cache does not hold is loaded as `accept` has it. -/
theorem load_of_missing (source : List UInt8)
    (h : ∀ contract ∈ c.held, contract.id ≠ ContractId.ofSource source) :
    (c.load source).1 = c.admission.accept source ∧
      ∀ other ∈ (c.load source).2.held,
        other ∈ c.held ∨ c.admission.accept source = .ok other := by
  rcases (c.load_cases source).2 with ⟨contract, mem, same, -⟩ | accepted
  · exact absurd same (h contract mem)
  · exact accepted

end Cache

end LedgerScript
