import LedgerScript.Proofs.Ledger.Loading
import LedgerScript.Proofs.Machine.Dispatch

/-!
# The deny list

A source is admitted only if no forbidden name is free in it.  Variables and
functions are looked up apart, but a declared variable takes its name from the
free ones wherever it is used.  So the deny list keeps a program from a
forbidden function unless the program declares a variable of that name
(`Cache.forbidden_not_dispatched`), and such a program gets through
(`ForbiddenVariable.forbidden_dispatched`).
-/

namespace LedgerScript

variable {σ : Type}

namespace Script.Program

/-- The names of all variables that a program declares, parameters included; with those of
its functions they are `declared`. -/
def variableNames (p : Program) : List String :=
  p.globals.map Binding.name ++
    p.functions.toList.flatMap fun (_, f) => f.params ++ Stmt.declaredByBody f.body

theorem mem_declared {p : Program} {name : String} :
    name ∈ p.declared ↔ name ∈ p.functions ∨ name ∈ p.variableNames := by
  unfold declared variableNames
  rw [List.append_assoc, List.mem_append, Std.ExtTreeMap.mem_keys]

end Script.Program

/-! ## Admitted contracts -/

namespace Admission

variable {a : Admission} {source : List UInt8} {contract : Contract}

theorem not_mem_globals_of_compile (h : a.compile source = .ok contract) {name : String}
    (denied : name ∈ a.forbidden) : name ∉ contract.compiled.globals := by
  unfold compile at h
  split at h
  · cases h
  · split at h
    · cases h
    · split at h
      · cases h
      · rename_i unused
        cases h
        intro mem
        exact List.find?_eq_none.1 unused name mem (decide_eq_true denied)

/-- A program that `accept` lets pass declares every `forbidden` name that it uses. -/
theorem mem_declared_of_accept (h : a.accept source = .ok contract) {name : String}
    (denied : name ∈ a.forbidden) (used : name ∈ contract.program.names) :
    name ∈ contract.program.declared := by
  refine Decidable.byContradiction fun undeclared => ?_
  have free : name ∈ contract.program.freeNames :=
    Script.Program.mem_freeNames.2 ⟨used, undeclared⟩
  exact not_mem_globals_of_compile (compile_of_accept h) denied free

end Admission

/-! ## Contracts at hand -/

namespace Cache

/-- What becomes of a new cache by `get`, `load` and `evict`. -/
inductive Reached (a : Admission) (capacity : Nat) : Cache → Prop where
  | new : Reached a capacity (.new a capacity)
  | get {c : Cache} (id : ContractId) : Reached a capacity c → Reached a capacity (c.get id).2
  | load {c : Cache} (source : List UInt8) :
    Reached a capacity c → Reached a capacity (c.load source).2
  | evict {c : Cache} (id : ContractId) :
    Reached a capacity c → Reached a capacity (c.evict id).2

structure Admits (a : Admission) (c : Cache) : Prop where
  admission : c.admission = a
  held : ∀ contract ∈ c.held, ∃ source, a.accept source = .ok contract

variable {a : Admission} {c : Cache} {contract : Contract}

theorem Admits.get (h : c.Admits a) (id : ContractId) : (c.get id).2.Admits a := by
  obtain ⟨admission, old, -⟩ := c.get_cases id
  exact ⟨admission.trans h.admission, fun held mem => h.held held (old held mem)⟩

theorem Admits.evict (h : c.Admits a) (id : ContractId) : (c.evict id).2.Admits a :=
  ⟨h.admission, fun held mem => h.held held (mem_of_mem_without mem).1⟩

/-- `load` gives a contract only as `accept` does, now or before. -/
theorem Admits.load (h : c.Admits a) (source : List UInt8) :
    (c.load source).2.Admits a ∧
      ∀ contract, (c.load source).1 = .ok contract → ∃ source, a.accept source = .ok contract := by
  obtain ⟨admission, ⟨first, mem, -, found, old⟩ | ⟨accepted, new⟩⟩ := c.load_cases source
  · rw [found]
    refine ⟨⟨admission.trans h.admission, fun held mem => h.held held (old held mem)⟩,
      fun contract loaded => ?_⟩
    cases loaded
    exact h.held first mem
  · rw [h.admission] at accepted new
    refine ⟨⟨admission.trans h.admission, fun held mem => ?_⟩,
      fun contract loaded => ⟨source, accepted.symm.trans loaded⟩⟩
    exact (new held mem).elim (h.held held) fun fresh => ⟨source, fresh⟩

theorem Reached.admits {capacity : Nat} (h : c.Reached a capacity) : c.Admits a := by
  induction h with
  | new => exact ⟨rfl, List.forall_mem_nil _⟩
  | get id _ ih => exact ih.get id
  | load source _ ih => exact (ih.load source).1
  | evict id _ ih => exact ih.evict id

/-- **What the deny list prevents.**  No run of a contract that `load` gives from a cache
that is `Reached` dispatches a built-in or host function of a `forbidden` name
(`Dispatch.ofRun`), unless the name is among the `variableNames` of the program. -/
theorem forbidden_not_dispatched {a : Admission} {capacity : Nat} {c : Cache}
    (reached : c.Reached a capacity) {source : List UInt8} {contract : Contract}
    (loaded : (c.load source).1 = .ok contract) {forbidden : String}
    (denied : forbidden ∈ a.forbidden) (undeclared : forbidden ∉ contract.program.variableNames)
    (s : Surroundings σ) (name : String) (args : List Value) (m : Machine σ) :
    forbidden ∉ Dispatch.ofRun s contract.program name args m := by
  intro dispatched
  obtain ⟨act, free⟩ := Dispatch.mem_acts_of_mem_ofRun dispatched
  obtain ⟨_, accepted⟩ := (reached.admits.load source).2 contract loaded
  have used := Script.Program.mem_names_of_call act
  have declared := Admission.mem_declared_of_accept accepted denied used
  rcases Script.Program.mem_declared.1 declared with own | hidden
  · have found := Std.ExtTreeMap.isSome_getElem?_iff_mem.2 own
    rw [free] at found
    cases found
  · exact undeclared hidden

end Cache

namespace ForbiddenVariable

/-- May not write. -/
def cache : Cache := .new { forbidden := ["PutState"] } 4

/-- Calls `PutState` all the same, by means of a variable of the forbidden name. -/
def source : List UInt8 :=
  Text.utf8 "function Init(a) \x7b let PutState = 0; return PutState(\"k\", 1); \x7d"

/-- Reads. -/
def honest : List UInt8 :=
  Text.utf8 "function Init(a) \x7b let key = \"k\"; return GetState(key); \x7d"

def machine : Machine Unit :=
  .start (.new (.new {} 1) {} (.forDeploy (Contract.specimen 0 []).id "" .null 0)) ()

/-- `forbidden_not_dispatched` for a program that reads only. -/
theorem honest_not_dispatched : ∃ contract, (cache.load honest).1 = .ok contract ∧
    "PutState" ∈ cache.admission.forbidden ∧ "PutState" ∉ contract.program.variableNames ∧
      "PutState" ∉ Dispatch.ofRun .bare contract.program "Init" [.null] machine := by
  have admitted : (cache.load honest).1.toOption.any (fun contract =>
      decide ("PutState" ∉ contract.program.variableNames)) = true := by decide +kernel
  obtain ⟨contract, loaded, checked⟩ := exists_ok_of_any admitted
  have undeclared := of_decide_eq_true checked
  have denied : "PutState" ∈ cache.admission.forbidden := List.mem_singleton_self _
  exact ⟨contract, loaded, denied, undeclared,
    Cache.forbidden_not_dispatched .new loaded denied undeclared .bare "Init" [.null] machine⟩

/-- A declared variable does not keep the function of its name from being called, and yet
it takes the name from `freeNames`, which `accept` looks at. -/
theorem forbidden_dispatched : ∃ contract, (cache.load source).1 = .ok contract ∧
    "PutState" ∈ cache.admission.forbidden ∧
      "PutState" ∈ Dispatch.ofRun .bare contract.program "Init" [.null] machine := by
  have admitted : (cache.load source).1.toOption.any (fun contract =>
      decide ("PutState" ∈ Dispatch.ofRun .bare contract.program "Init" [.null] machine)) =
      true := by decide +kernel
  obtain ⟨contract, loaded, checked⟩ := exists_ok_of_any admitted
  exact ⟨contract, loaded, List.mem_singleton_self _, of_decide_eq_true checked⟩

end ForbiddenVariable

end LedgerScript
