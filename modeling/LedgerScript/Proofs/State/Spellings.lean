import LedgerScript.Proofs.State.Reading

/-!
# Spellings of a key

A script spells a key by its name or with its namespace in front, and each key is
meant by these spellings alone (`resolveKey_eq_ok_iff`).  A name is cut off at the
first separator and not looked at for more, so a key whose name has a separator in
it has its long spelling only.  Main statement: `spellings_of_resolveKey`.
-/

namespace LedgerScript

open StateKey (separator)

/-! ## Cutting a text -/

theorem splitKey?_eq_none_iff {text : List Char} : splitKey? text = none ↔ separator ∉ text := by
  induction text with
  | nil => simp [splitKey?]
  | cons c rest ih =>
    rw [splitKey?, List.mem_cons, not_or]
    by_cases here : c = separator
    · simp [here]
    · simp [here, ih, Ne.symm here]

/-- `splitKey?` cuts a text at its first `separator`. -/
theorem splitKey?_eq_some_iff {text space name : List Char} :
    splitKey? text = some (space, name) ↔
      separator ∉ space ∧ text = space ++ separator :: name := by
  induction text generalizing space with
  | nil => simp [splitKey?]
  | cons c rest ih =>
    rw [splitKey?]
    by_cases here : c = separator
    · rw [if_pos here, here]
      constructor
      · intro cut
        cases cut
        exact ⟨List.not_mem_nil, rfl⟩
      · rintro ⟨free, whole⟩
        cases space with
        | nil =>
          cases whole
          rfl
        | cons d space =>
          cases whole
          exact absurd List.mem_cons_self free
    · rw [if_neg here, Option.map_eq_some_iff]
      constructor
      · rintro ⟨⟨space, name⟩, cut, same⟩
        cases same
        obtain ⟨free, rfl⟩ := ih.1 cut
        refine ⟨?_, rfl⟩
        rw [List.mem_cons, not_or]
        exact ⟨Ne.symm here, free⟩
      · rintro ⟨free, whole⟩
        cases space with
        | nil =>
          cases whole
          exact absurd rfl here
        | cons d space =>
          cases whole
          rw [List.mem_cons, not_or] at free
          exact ⟨(space, name), ih.2 ⟨free.2, rfl⟩, rfl⟩

/-- A text that `isContractSpace` has no `separator`. -/
theorem separator_not_mem_of_isContractSpace {text : List Char}
    (h : isContractSpace text = true) : separator ∉ text := by
  intro mem
  unfold isContractSpace at h
  rw [Bool.and_eq_true, List.all_eq_true] at h
  exact absurd (h.2 separator mem) (by decide)

/-! ## Names and spellings -/

namespace StateKey

/-- A script may have a key of this name: it is neither empty nor too long, and not
`reserved`. -/
structure Usable (key : StateKey) (maxLength : Nat) : Prop where
  free : key.reserved = false
  named : key.name ≠ ""
  short : key.name.utf8ByteSize ≤ maxLength

theorem toList_qualified (key : StateKey) :
    key.qualified.toList = key.space.toList ++ separator :: key.name.toList := by
  simp [qualified, Char.toString]

/-- `qualified`, with the namespace in front, is not the name. -/
theorem name_ne_qualified (key : StateKey) : key.name ≠ key.qualified := by
  intro same
  have length := congrArg List.length (congrArg String.toList same)
  rw [toList_qualified] at length
  simp at length
  omega

end StateKey

theorem ownKey_eq_ok_iff {own : Namespace} {raw name : String} {maxLength : Nat}
    {key : StateKey} :
    ownKey own raw name maxLength = .ok key ↔ key = ⟨own, name⟩ ∧ key.Usable maxLength := by
  unfold ownKey
  constructor
  · intro h
    split at h
    · cases h
    · rename_i free
      split at h
      · cases h
      · rename_i named
        split at h
        · cases h
        · rename_i short
          cases h
          exact ⟨rfl, Bool.eq_false_iff.2 free, named, Nat.le_of_not_lt short⟩
  · rintro ⟨rfl, free, named, short⟩
    exact (if_neg (Bool.eq_false_iff.1 free)).trans
      ((if_neg named).trans (if_neg (Nat.not_lt.2 short)))

/-! ## What is spelled -/

section Spelled

variable {own : Namespace} {raw : String} {maxLength : Nat} {key : StateKey}

theorem resolveKey_of_bare (bare : separator ∉ raw.toList) :
    resolveKey own raw maxLength = ownKey own raw raw maxLength := by
  unfold resolveKey
  rw [splitKey?_eq_none_iff.2 bare]

theorem resolveKey_qualified (plain : separator ∉ key.space.toList) :
    resolveKey key.space key.qualified maxLength =
      ownKey key.space key.qualified key.name maxLength := by
  unfold resolveKey
  rw [splitKey?_eq_some_iff.2 ⟨plain, key.toList_qualified⟩]
  simp

/-- `resolveKey` accepts nothing but a bare name or a name with the contract's own
namespace in front. -/
theorem spelled_of_resolveKey (h : resolveKey own raw maxLength = .ok key) :
    separator ∉ raw.toList ∨ ∃ name, raw = (StateKey.mk own name).qualified := by
  unfold resolveKey at h
  cases cut : splitKey? raw.toList with
  | none => exact .inl (splitKey?_eq_none_iff.1 cut)
  | some parts =>
    obtain ⟨space, name⟩ := parts
    rw [cut] at h
    dsimp only at h
    by_cases mine : space = own.toList
    · refine .inr ⟨String.ofList name, String.toList_injective ?_⟩
      rw [StateKey.toList_qualified, String.toList_ofList, ← mine]
      exact (splitKey?_eq_some_iff.1 cut).2
    · rw [if_neg mine] at h
      split at h <;> cases h

/-- `resolveKey` gives a key of the contract for the key's name, if there is no
`separator` in it, and for `qualified`, and for nothing else. -/
theorem resolveKey_eq_ok_iff (plain : separator ∉ own.toList) :
    resolveKey own raw maxLength = .ok key ↔
      key.space = own ∧ key.Usable maxLength ∧
        (raw = key.name ∧ separator ∉ raw.toList ∨ raw = key.qualified) := by
  constructor
  · intro h
    rcases spelled_of_resolveKey h with bare | ⟨name, rfl⟩
    · rw [resolveKey_of_bare bare, ownKey_eq_ok_iff] at h
      obtain ⟨rfl, usable⟩ := h
      exact ⟨rfl, usable, .inl ⟨rfl, bare⟩⟩
    · have cut : resolveKey own (StateKey.mk own name).qualified maxLength =
          ownKey own _ name maxLength := resolveKey_qualified plain
      rw [h, eq_comm, ownKey_eq_ok_iff] at cut
      obtain ⟨rfl, usable⟩ := cut
      exact ⟨rfl, usable, .inr rfl⟩
  · rintro ⟨rfl, usable, ⟨rfl, bare⟩ | rfl⟩
    · rw [resolveKey_of_bare bare, ownKey_eq_ok_iff]
      exact ⟨rfl, usable⟩
    · rw [resolveKey_qualified plain, ownKey_eq_ok_iff]
      exact ⟨rfl, usable⟩

/-- **Keys have one canonical form, unless their names have separators.**  If `resolveKey`
gives a key for what a script of a contract spells, the key lies in the contract's own
namespace, and `qualified` gives the same key.  The name alone gives it exactly if there
is no `separator` in the name, which is so exactly if there was at most one in what was
spelled. -/
theorem spellings_of_resolveKey (contract : isContractSpace own.toList = true)
    (resolved : resolveKey own raw maxLength = .ok key) :
    key.space = own ∧ resolveKey own key.qualified maxLength = .ok key ∧
      (separator ∉ key.name.toList ↔ raw.toList.count separator ≤ 1) ∧
      (resolveKey own key.name maxLength = .ok key ↔ raw.toList.count separator ≤ 1) := by
  have plain := separator_not_mem_of_isContractSpace contract
  obtain ⟨space, usable, spelled⟩ := (resolveKey_eq_ok_iff plain).1 resolved
  have simple : separator ∉ key.name.toList ↔ raw.toList.count separator ≤ 1 := by
    rcases spelled with ⟨rfl, short⟩ | rfl
    · simp [short, List.count_eq_zero_of_not_mem short]
    · rw [StateKey.toList_qualified, space, List.count_append, List.count_cons_self,
        List.count_eq_zero_of_not_mem plain, ← List.count_eq_zero]
      omega
  have named : resolveKey own key.name maxLength = .ok key ↔ separator ∉ key.name.toList := by
    rw [resolveKey_eq_ok_iff plain]
    constructor
    · rintro ⟨-, -, ⟨-, short⟩ | long⟩
      · exact short
      · exact absurd long key.name_ne_qualified
    · intro short
      exact ⟨space, usable, .inl ⟨rfl, short⟩⟩
  exact ⟨space, (resolveKey_eq_ok_iff plain).2 ⟨space, usable, .inr rfl⟩, simple,
    named.trans simple⟩

end Spelled

namespace SpelledKeys

def home : Namespace := "5b3975651c3cab92d044c096dc30a1c2d9525497457472de48c51ecb363d1f4a"

theorem contract_home : isContractSpace home.toList = true := by decide +kernel

/-- `qualified` of a name that a script may use gives its key. -/
theorem resolveKey_home {name : String} (usable : (StateKey.mk home name).Usable 256) :
    resolveKey home (StateKey.mk home name).qualified 256 = .ok ⟨home, name⟩ :=
  (resolveKey_eq_ok_iff (separator_not_mem_of_isContractSpace contract_home)).2
    ⟨rfl, usable, .inr rfl⟩

def balance : StateKey := ⟨home, "balance"⟩

/-- `spellings_of_resolveKey` for a name without separators: it is a spelling, and so is
the long one. -/
theorem balance_spellings :
    isContractSpace home.toList = true ∧ resolveKey home balance.qualified 256 = .ok balance ∧
      separator ∉ balance.name.toList ∧ resolveKey home balance.name 256 = .ok balance := by
  have resolved : resolveKey home balance.qualified 256 = .ok balance :=
    resolveKey_home ⟨by decide, by decide, by decide⟩
  have once : balance.qualified.toList.count separator ≤ 1 := by decide +kernel
  obtain ⟨-, -, simple, short⟩ := spellings_of_resolveKey contract_home resolved
  exact ⟨contract_home, resolved, simple.2 once, short.2 once⟩

/-- A key with a separator in its name. -/
def slashed : StateKey := ⟨home, "a/b"⟩

/-- `resolveKey` gives the key for its long spelling, but not for its name. -/
theorem slashed_not_spelled_by_name :
    isContractSpace home.toList = true ∧ resolveKey home slashed.qualified 256 = .ok slashed ∧
      separator ∈ slashed.name.toList ∧
      resolveKey home slashed.name 256 = .error (.script (.separatorInKey "a/b")) := by
  refine ⟨contract_home, resolveKey_home ⟨by decide, by decide, by decide⟩, by decide, ?_⟩
  rfl

end SpelledKeys

end LedgerScript
