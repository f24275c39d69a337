import LedgerScript.Machine.Variables

/-!
# What variables hold

A property of values that all variables have (`Variables.All`) is kept by every
change of the variables that puts only such values into them.
-/

namespace LedgerScript

variable {P : Value → Prop}

def Scope.All (P : Value → Prop) (scope : Scope) : Prop :=
  ∀ (name : String) (slot : Slot), scope[name]? = some slot → P slot.value

def Frame.All (P : Value → Prop) (frame : Frame) : Prop := ∀ scope ∈ frame, Scope.All P scope

/-- All variables hold values with a property `P`. -/
structure Variables.All (P : Value → Prop) (v : Variables) : Prop where
  globals : Scope.All P v.globals
  frames : ∀ frame ∈ v.frames, Frame.All P frame

namespace Scope

theorem all_empty : All P ∅ := by
  intro name slot found
  simp at found

theorem All.insert {scope : Scope} (h : All P scope) (name : String) {slot : Slot}
    (hs : P slot.value) : All P (scope.insert name slot) := by
  intro other found eq
  rw [Std.ExtTreeMap.getElem?_insert] at eq
  split at eq
  · cases eq
    exact hs
  · exact h other found eq

theorem All.bindArgs (null : P .null) {params : List String} {args : List Value}
    {scope : Scope} (h : All P scope) (hargs : ∀ v ∈ args, P v) :
    All P (Variables.bindArgs scope params args) := by
  induction params generalizing scope args with
  | nil => exact h
  | cons param rest ih =>
    have first : P (args.headD .null) := by
      cases args with
      | nil => exact null
      | cons v _ => exact hargs v (List.mem_cons_self ..)
    exact ih (h.insert param first) fun v mem => hargs v (List.mem_of_mem_tail mem)

end Scope

namespace Frame

theorem All.find? {frame : Frame} (h : All P frame) {name : String} {slot : Slot}
    (found : frame.find? name = some slot) : P slot.value := by
  obtain ⟨scope, mem, eq⟩ := List.exists_of_findSome?_eq_some found
  exact h scope mem name slot eq

theorem All.update? {frame next : Frame} (h : All P frame) {name : String} {v : Value}
    (hv : P v) (updated : frame.update? name v = some next) : All P next := by
  induction frame generalizing next with
  | nil => cases updated
  | cons scope outer ih =>
    obtain ⟨first, rest⟩ := List.forall_mem_cons.1 h
    unfold Frame.update? at updated
    split at updated
    · cases updated
      exact List.forall_mem_cons.2 ⟨first.insert name hv, rest⟩
    · obtain ⟨inner, changed, rfl⟩ := Option.map_eq_some_iff.1 updated
      exact List.forall_mem_cons.2 ⟨first, ih rest changed⟩

end Frame

namespace Variables.All

variable {v : Variables}

theorem empty : All P {} := ⟨Scope.all_empty, List.forall_mem_nil _⟩

theorem find? (h : v.All P) {name : String} {slot : Slot} (found : v.find? name = some slot) :
    P slot.value := by
  unfold Variables.find? at found
  rcases Option.or_eq_some_iff.1 found with inner | ⟨-, outer⟩
  · obtain ⟨frame, head, eq⟩ := Option.bind_eq_some_iff.1 inner
    exact (h.frames frame (List.mem_of_mem_head? head)).find? eq
  · exact h.globals name slot outer

theorem declareGlobal (h : v.All P) (name : String) {slot : Slot} (hs : P slot.value) :
    (v.declareGlobal name slot).All P :=
  ⟨h.globals.insert name hs, h.frames⟩

theorem declare (h : v.All P) (name : String) {slot : Slot} (hs : P slot.value) :
    (v.declare name slot).All P := by
  unfold Variables.declare
  split
  · rename_i scope outer below frames
    have all := h.frames
    rw [frames] at all
    obtain ⟨inner, rest⟩ := List.forall_mem_cons.1 all
    obtain ⟨first, others⟩ := List.forall_mem_cons.1 inner
    have changed : Frame.All P (scope.insert name slot :: outer) :=
      List.forall_mem_cons.2 ⟨first.insert name hs, others⟩
    exact ⟨h.globals, List.forall_mem_cons.2 ⟨changed, rest⟩⟩
  · exact h.declareGlobal name hs

theorem update (h : v.All P) (name : String) {new : Value} (hnew : P new) :
    (v.update name new).All P := by
  unfold Variables.update
  extract_lets ofGlobals
  have kept : ofGlobals.All P := by
    unfold ofGlobals
    split
    · exact ⟨h.globals.insert name hnew, h.frames⟩
    · exact h
  split
  · exact kept
  · rename_i frame below frames
    have all := h.frames
    rw [frames] at all
    obtain ⟨inner, rest⟩ := List.forall_mem_cons.1 all
    split
    · rename_i changed updated
      exact ⟨h.globals, List.forall_mem_cons.2 ⟨inner.update? hnew updated, rest⟩⟩
    · exact kept

theorem pushFrame (h : v.All P) {scope : Scope} (hs : Scope.All P scope) :
    (v.pushFrame scope).All P := by
  have frame : Frame.All P [scope] := List.forall_mem_singleton.2 hs
  exact ⟨h.globals, List.forall_mem_cons.2 ⟨frame, h.frames⟩⟩

theorem popFrame (h : v.All P) : v.popFrame.All P :=
  ⟨h.globals, fun frame mem => h.frames frame (List.mem_of_mem_tail mem)⟩

theorem pushScope (h : v.All P) : v.pushScope.All P := by
  unfold Variables.pushScope
  split
  · exact h
  · rename_i frame below frames
    have all := h.frames
    rw [frames] at all
    obtain ⟨inner, rest⟩ := List.forall_mem_cons.1 all
    have opened : Frame.All P (∅ :: frame) := List.forall_mem_cons.2 ⟨Scope.all_empty, inner⟩
    exact ⟨h.globals, List.forall_mem_cons.2 ⟨opened, rest⟩⟩

theorem popScope (h : v.All P) : v.popScope.All P := by
  unfold Variables.popScope
  split
  · exact h
  · rename_i frame below frames
    have all := h.frames
    rw [frames] at all
    obtain ⟨inner, rest⟩ := List.forall_mem_cons.1 all
    have closed : Frame.All P frame.tail := fun scope mem => inner scope (List.mem_of_mem_tail mem)
    exact ⟨h.globals, List.forall_mem_cons.2 ⟨closed, rest⟩⟩

end Variables.All

end LedgerScript
