import LedgerScript.Proofs.Ledger.Atomicity
import LedgerScript.Proofs.Ledger.Loading
import LedgerScript.Proofs.Wire.CodeRecord

/-!
# Contracts at hand

A cache should hold contracts that the committed state deploys, and no others
(`Committed.Deploys`, `Cache.Coherent`).  Finding contracts adds only such
contracts (`Entry.extends_run`), and what is found does not depend on what was at
hand (`resolve_of_deploys`, `resolve_of_unrecorded`).
-/

namespace LedgerScript

/-- The `Admission` of the sources that a configuration admits. -/
def Config.admission (c : Config) : Admission := ⟨c.maxScriptSize.toNat, c.forbiddenGlobals⟩

/-! ## Identities -/

theorem ContractId.space_injective {a b : ContractId} (h : a.space = b.space) : a = b := by
  have bytes : a.bytes = b.bytes := Text.hex_injective h
  cases a
  cases b
  cases bytes
  rfl

theorem StateKey.code_injective {a b : ContractId} (h : code a = code b) : a = b :=
  ContractId.space_injective (congrArg StateKey.space h)

theorem StateKey.reserved_code (id : ContractId) : (code id).reserved = true := by
  change reservedStart.toList.isPrefixOf codeName.toList = true
  decide

/-! ## Deployed contracts -/

namespace Committed

/-- What committed state deploys under an identity: there is a `CodeRecord` of
`Script.languageName`, and its source has the identity and `Admission.accept` gives the
contract. -/
def Deploys (entries : Committed) (a : Admission) (id : ContractId) (contract : Contract) : Prop :=
  ∃ bytes source, entries[StateKey.code id]? = some bytes ∧
    CodeRecord.decode bytes = .ok ⟨Script.languageName, source⟩ ∧
    ContractId.ofSource (Text.utf8 source) = id ∧ a.accept (Text.utf8 source) = .ok contract

variable {entries other : Committed} {a : Admission} {id : ContractId}
  {contract contract' : Contract}

theorem Deploys.recorded (h : entries.Deploys a id contract) :
    entries[StateKey.code id]? ≠ none := by
  obtain ⟨bytes, source, recorded, -⟩ := h
  rw [recorded]
  exact Option.some_ne_none _

theorem Deploys.unique (h : entries.Deploys a id contract) (h' : entries.Deploys a id contract') :
    contract = contract' := by
  obtain ⟨bytes, source, recorded, decoded, -, accepted⟩ := h
  obtain ⟨bytes', source', recorded', decoded', -, accepted'⟩ := h'
  cases recorded.symm.trans recorded'
  cases decoded.symm.trans decoded'
  cases accepted.symm.trans accepted'
  rfl

theorem Deploys.id_eq (h : entries.Deploys a id contract) : contract.id = id := by
  obtain ⟨bytes, source, -, -, own, accepted⟩ := h
  exact (Admission.id_of_accept accepted).trans own

theorem Deploys.congr (h : entries.Deploys a id contract)
    (same : other[StateKey.code id]? = entries[StateKey.code id]?) :
    other.Deploys a id contract := by
  obtain ⟨bytes, source, recorded, rest⟩ := h
  exact ⟨bytes, source, same.trans recorded, rest⟩

end Committed

namespace Cache

/-- What becomes of a cache over committed state: `b` holds only contracts that `a` holds
or `entries` deploys. -/
structure Extends (entries : Committed) (a b : Cache) : Prop where
  admission : b.admission = a.admission
  held : ∀ contract ∈ b.held,
    contract ∈ a.held ∨ entries.Deploys a.admission contract.id contract

/-- All contracts that the cache holds are deployed, as `Committed.Deploys` says. -/
def Coherent (c : Cache) (entries : Committed) : Prop :=
  ∀ contract ∈ c.held, entries.Deploys c.admission contract.id contract

/-- A contract that the cache holds is the one that `entries` deploys, if any is deployed
under its identity. -/
def Faithful (c : Cache) (entries : Committed) : Prop :=
  ∀ contract ∈ c.held, entries[StateKey.code contract.id]? ≠ none →
    entries.Deploys c.admission contract.id contract

variable {entries : Committed} {a b c : Cache}

theorem Extends.refl (c : Cache) : c.Extends entries c := ⟨rfl, fun _ => .inl⟩

theorem Extends.of_subset (admission : b.admission = a.admission)
    (h : ∀ contract ∈ b.held, contract ∈ a.held) : a.Extends entries b :=
  ⟨admission, fun contract mem => .inl (h contract mem)⟩

theorem Extends.trans (hab : a.Extends entries b) (hbc : b.Extends entries c) :
    a.Extends entries c where
  admission := hbc.admission.trans hab.admission
  held contract mem := by
    have new := hbc.held contract mem
    rw [hab.admission] at new
    exact new.elim (hab.held contract) .inr

theorem Extends.coherent (h : a.Extends entries b) (ha : a.Coherent entries) :
    b.Coherent entries := by
  intro contract mem
  rw [h.admission]
  exact (h.held contract mem).elim (ha contract) id

theorem Extends.faithful (h : a.Extends entries b) (ha : a.Faithful entries) :
    b.Faithful entries := by
  intro contract mem recorded
  rw [h.admission]
  exact (h.held contract mem).elim (fun old => ha contract old recorded) id

theorem Coherent.faithful (h : c.Coherent entries) : c.Faithful entries :=
  fun contract mem _ => h contract mem

theorem Coherent.missing (h : c.Coherent entries) {id : ContractId}
    (unrecorded : entries[StateKey.code id]? = none) : ∀ contract ∈ c.held, contract.id ≠ id :=
  fun contract mem same => (h contract mem).recorded (same ▸ unrecorded)

end Cache

namespace Ledger

variable {entries : Committed} {id : ContractId}

theorem codeRecord?_of_unrecorded (h : entries[StateKey.code id]? = none) :
    codeRecord? entries id = .ok none := by
  unfold codeRecord?
  rw [h]

theorem codeRecord?_eq_ok_some {record : CodeRecord}
    (h : codeRecord? entries id = .ok (some record)) :
    ∃ bytes, entries[StateKey.code id]? = some bytes ∧ CodeRecord.decode bytes = .ok record := by
  unfold codeRecord? at h
  split at h
  · cases h
  · rename_i bytes recorded
    split at h <;> cases h
    rename_i decoded
    exact ⟨bytes, recorded, decoded⟩

theorem codeRecord?_of_deploys {a : Admission} {contract : Contract}
    (h : entries.Deploys a id contract) :
    ∃ source, codeRecord? entries id = .ok (some ⟨Script.languageName, source⟩) ∧
      ContractId.ofSource (Text.utf8 source) = id ∧ a.accept (Text.utf8 source) = .ok contract := by
  obtain ⟨bytes, source, recorded, decoded, own, accepted⟩ := h
  unfold codeRecord?
  rw [recorded]
  dsimp only
  rw [decoded]
  exact ⟨source, rfl, own, accepted⟩

/-- What `reload` compiles from a code record is deployed, or is dropped again. -/
theorem extends_reload {bytes : List UInt8} (recorded : entries[StateKey.code id]? = some bytes)
    {record : CodeRecord} (decoded : CodeRecord.decode bytes = .ok record)
    {before after : Cache} (h : Ends (reload id record) before after) :
    before.Extends entries after := by
  obtain ⟨admission, loaded⟩ := before.load_cases (Text.utf8 record.source)
  unfold Ends reload at h
  by_cases language : record.language = Script.languageName
  · rw [if_pos language] at h
    generalize before.load (Text.utf8 record.source) = loading at h admission loaded
    obtain ⟨e | contract, next⟩ := loading <;> dsimp only at h admission loaded
    · rcases h with ⟨a, h⟩ | ⟨f, h⟩ <;> cases h
      rcases loaded with ⟨contract, -, -, same, -⟩ | ⟨same, mem⟩
      · cases same
      · refine .of_subset admission fun other held => (mem other held).resolve_right fun new => ?_
        cases same.trans new
    · by_cases same : contract.id = id
      · rw [if_pos same] at h
        rcases h with ⟨a, h⟩ | ⟨f, h⟩ <;> cases h
        rcases loaded with ⟨-, -, -, -, old⟩ | ⟨accepted, mem⟩
        · exact .of_subset admission old
        · refine ⟨admission, fun other held => (mem other held).imp_right fun new => ?_⟩
          have own := Admission.id_of_accept new
          cases accepted.trans new
          refine ⟨bytes, record.source, same ▸ recorded, ?_, own.symm, new⟩
          rw [decoded, ← language]
      · rw [if_neg same] at h
        rcases h with ⟨a, h⟩ | ⟨f, h⟩ <;> cases h
        refine .of_subset admission fun other held => ?_
        obtain ⟨kept, apart⟩ := Cache.mem_of_mem_without held
        rcases loaded with ⟨-, -, -, -, old⟩ | ⟨accepted, mem⟩
        · exact old other kept
        · refine (mem other kept).resolve_right fun new => apart ?_
          cases accepted.trans new
          rfl
  · rw [if_neg language] at h
    rcases h with ⟨a, h⟩ | ⟨f, h⟩ <;> cases h
    exact .refl _

/-- `resolve` brings in only what is deployed. -/
theorem extends_resolve {before after : Cache} (h : Ends (resolve entries id) before after) :
    before.Extends entries after := by
  unfold Ends resolve at h
  cases hr : codeRecord? entries id with
  | error e =>
    rw [hr] at h
    rcases h with ⟨a, h⟩ | ⟨f, h⟩ <;> cases h
    exact .refl _
  | ok record? =>
    rw [hr] at h
    cases record? with
    | none =>
      rcases h with ⟨a, h⟩ | ⟨f, h⟩ <;> cases h
      exact .refl _
    | some record =>
      obtain ⟨bytes, recorded, decoded⟩ := codeRecord?_eq_ok_some hr
      obtain ⟨admission, old, -⟩ := before.get_cases id
      have looked : before.Extends entries (before.get id).2 := .of_subset admission old
      dsimp only at h
      generalize before.get id = looking at h looked
      obtain ⟨_ | contract, next⟩ := looking
      · exact looked.trans (extends_reload recorded decoded h)
      · rcases h with ⟨a, h⟩ | ⟨f, h⟩ <;> cases h
        exact looked

theorem resolve_of_unrecorded (h : entries[StateKey.code id]? = none) (c : Cache) :
    resolve entries id c = .error (.contractNotFound id) c := by
  unfold resolve
  rw [codeRecord?_of_unrecorded h]

/-- `resolve` finds a deployed contract, whether the cache holds it or not. -/
theorem resolve_of_deploys {c : Cache} (faithful : c.Faithful entries) {contract : Contract}
    (h : entries.Deploys c.admission id contract) :
    ∃ next, resolve entries id c = .ok contract next := by
  obtain ⟨source, record, own, accepted⟩ := codeRecord?_of_deploys h
  have looked := c.get_cases id
  unfold resolve
  rw [record]
  dsimp only
  generalize c.get id = looking at looked ⊢
  obtain ⟨first, next⟩ := looking
  obtain ⟨admission, old, found⟩ := looked
  rcases found with ⟨held, mem, same, found⟩ | ⟨missing, found⟩
  · cases found
    subst same
    cases (faithful held mem h.recorded).unique h
    exact ⟨next, rfl⟩
  · cases found
    have loaded := (next.load_of_missing (Text.utf8 source) fun other mem => by
      rw [own]
      exact missing other (old other mem)).1
    dsimp only at admission ⊢
    unfold reload
    rw [if_pos rfl]
    dsimp only
    rw [admission, accepted] at loaded
    generalize next.load (Text.utf8 source) = loading at loaded ⊢
    obtain ⟨result, after⟩ := loading
    cases loaded
    dsimp only
    rw [if_pos h.id_eq]
    exact ⟨after, rfl⟩

/-- The cache at the end of a run `Cache.Extends` the one at its beginning, for only
`resolve` changes it. -/
theorem allows_extends (l : Ledger) :
    Allows .lax l.surroundings
      (fun _ a b => a.outside.Extends l.store.entries b.outside)
      (fun _ a b => a.outside.Extends l.store.entries b.outside) where
  value _ := trivial
  admits := Regime.admits_lax
  own _ := {
    refl := fun m => .refl m.outside
    trans := .trans
    fail := fun m => .refl m.outside
    after := .trans
    before := .trans
    vars := fun m _ => .refl m.outside
    meter := fun m _ _ => .refl m.outside
    framed := fun _ done => done
    framedError := fun _ failed => failed
    look := fun m _ _ => .refl m.outside
    write := fun m _ _ _ _ => .refl m.outside
    log := fun m _ => .refl m.outside
    entered := fun m => .refl m.outside
    left := fun m => .refl m.outside
    resolve := fun _ _ _ found => extends_resolve found }
  builtin m _ _ _ := .refl m.outside
  hosted m _ _ _ := .refl m.outside
  returned m next child truthy _ _ h := by
    cases truthy <;> exact h
  broken _ _ _ _ _ h := h

end Ledger

/-- The cache that `run` leaves `Cache.Extends` the one that the call opened with. -/
theorem Entry.extends_run (e : Entry) (l : Ledger) :
    e.cache.Extends l.store.entries (e.run l).2 :=
  (l.allows_extends.runEntry e.contract e.context).ends (Exec.ends_finish _ (Machine.start
    (Host.new (Meter.new (l.config.budget e.context.kind) l.config.checkInterval) e.view
      e.context) e.cache))

end LedgerScript
