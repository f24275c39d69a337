import LedgerScript.Machine.Path
import LedgerScript.Proofs.Value.Parts

/-!
# Places inside a value

A key selects a place of a map or of a list (`Value.Spot`).  `Value.writePath` goes from
place to place (`Value.writePath_cons`) and, on the way up, sets what the rest of the path
has made of each of them.  When it fails it has changed nothing
(`Value.writePath_eq_error`).
-/

namespace LedgerScript

namespace Value

/-! ## Places inside a value -/

/-- A place in a map or in a list. -/
inductive Spot where
  | entry (name : String)
  | item (i : Nat)
  deriving DecidableEq

/-- The place that a key selects; a length has none. -/
def spot? (v : Value) (key : PathKey) : Option Spot :=
  match v, key with
  | map _, key => key.mapKey.toOption.map .entry
  | list _, .value (int n) => (position? n).map .item
  | _, _ => none

/-- The value with another one at a place; only the last key of a path may be new to
its map. -/
def put (v : Value) (spot : Spot) (last : Bool) (child : Value) : Value :=
  match v, spot with
  | map entries, .entry name =>
    map (if last then Entries.put name child entries else Entries.set name child entries)
  | list items, .item i => list (items.set i child)
  | v, _ => v

/-- The place that a write goes through, and what stands there; only the last key of a
path may be new to its map. -/
def reach (v : Value) (key : PathKey) (last : Bool) : Except ScriptFault (Spot × Value) :=
  match v, key with
  | map entries, key =>
    match key.mapKey with
    | .error f => .error f
    | .ok name =>
      match Entries.get? entries name with
      | some child => .ok (.entry name, child)
      | none => if last then .ok (.entry name, null) else .error (.missingKey name)
  | list items, .value (int n) =>
    match (position? n).bind fun i => items[i]?.map (Prod.mk i) with
    | some (i, child) => .ok (.item i, child)
    | none => .error (.indexOutOfBounds n items.length)
  | list _, _ => .error .indexNotInt
  | v, _ => .error (.cannotSet v.kind)

/-- One step of `writePath`: the rest of the path changes what stands in the place. -/
theorem writePath_cons (new : Value) (key : PathKey) (rest : List PathKey) (v : Value) :
    writePath new (key :: rest) v =
      match v.reach key rest.isEmpty with
      | .error f => .error f v
      | .ok (spot, child) => (writePath new rest).within (v.put spot rest.isEmpty) child := by
  cases v with
  | map entries =>
    simp only [writePath, reach]
    cases key.mapKey with
    | error f => rfl
    | ok name =>
      dsimp only
      cases Entries.get? entries name <;> cases rest <;> rfl
  | list items =>
    cases key with
    | name s => rfl
    | value k =>
      cases k with
      | int n =>
        simp only [writePath, reach]
        cases (position? n).bind fun i => items[i]?.map (Prod.mk i) <;> rfl
      | _ => rfl
  | _ => rfl

section Reached

variable {v child : Value} {key other : PathKey} {last : Bool} {spot : Spot}

theorem reach_eq_ok (h : v.reach key last = .ok (spot, child)) :
    (∃ entries name, v = map entries ∧ key.mapKey = .ok name ∧ spot = .entry name ∧
        child = (Entries.get? entries name).getD null ∧
        (last = false → (Entries.get? entries name).isSome)) ∨
      ∃ items n i, v = list items ∧ key = .value (int n) ∧ position? n = some i ∧
        spot = .item i ∧ items[i]? = some child := by
  unfold reach at h
  split at h
  · next entries =>
    split at h
    · cases h
    · next name named =>
      split at h
      · next found =>
        cases h
        exact .inl ⟨entries, name, rfl, named, rfl, by rw [found]; rfl, fun _ => by rw [found]; rfl⟩
      · next missing =>
        split at h <;> cases h
        next whole =>
        exact .inl ⟨entries, name, rfl, named, rfl, by rw [missing]; rfl, fun inner => by
          cases inner.symm.trans whole⟩
  · next items n =>
    split at h
    · next i child' found =>
      cases h
      obtain ⟨i, place, inside⟩ := Option.bind_eq_some_iff.1 found
      obtain ⟨w, got, pair⟩ := Option.map_eq_some_iff.1 inside
      cases pair
      exact .inr ⟨items, n, i, rfl, rfl, place, rfl, got⟩
    · cases h
  · cases h
  · cases h

theorem spot?_map_eq_some {entries : Entries Value} {name : String} :
    (map entries).spot? key = some (.entry name) ↔ key.mapKey = .ok name := by
  change key.mapKey.toOption.map Spot.entry = _ ↔ _
  cases key.mapKey <;> simp [Except.toOption]

theorem spot?_of_reach (h : v.reach key last = .ok (spot, child)) : v.spot? key = some spot := by
  rcases reach_eq_ok h with ⟨entries, name, rfl, named, rfl, rfl, -⟩ |
    ⟨items, n, i, rfl, rfl, place, rfl, got⟩
  · exact spot?_map_eq_some.2 named
  · exact congrArg (Option.map Spot.item) place

theorem scanned_of_reach (h : v.reach key last = .ok (spot, child)) : v.scanned = 0 := by
  rcases reach_eq_ok h with ⟨entries, name, rfl, -⟩ | ⟨items, n, i, rfl, -⟩ <;> rfl

theorem select_map {entries : Entries Value} {name : String} (h : key.mapKey = .ok name) :
    (map entries).select key = .ok ((Entries.get? entries name).getD null) := by
  cases key with
  | name s =>
    cases h
    rfl
  | value k => cases k <;> cases h <;> rfl

/-- Whatever key leads to the place that `reach` gives, `select` reads what stands there. -/
theorem select_of_reach (h : v.reach key last = .ok (spot, child))
    (same : v.spot? other = some spot) : v.select other = .ok child := by
  rcases reach_eq_ok h with ⟨entries, name, rfl, -, rfl, rfl, -⟩ |
    ⟨items, n, i, rfl, -, -, rfl, got⟩
  · exact select_map (spot?_map_eq_some.1 same)
  · cases other with
    | name s => cases same
    | value k =>
      cases k with
      | int n' =>
        obtain ⟨i', place', eq⟩ := Option.map_eq_some_iff.1 same
        cases eq
        simp [select, item, place', got]
      | _ => cases same

/-! ### After a put -/

theorem scanned_put (v : Value) (spot : Spot) (last : Bool) (c : Value) :
    (v.put spot last c).scanned = v.scanned := by
  cases v <;> cases spot <;> rfl

theorem spot?_put (v : Value) (spot : Spot) (last : Bool) (c : Value) (key : PathKey) :
    (v.put spot last c).spot? key = v.spot? key := by
  cases v with
  | map entries => cases spot <;> rfl
  | list items =>
    cases spot with
    | entry name => rfl
    | item i =>
      cases key with
      | name s => rfl
      | value k => cases k <;> rfl
  | _ => rfl

theorem put_put (v : Value) (spot : Spot) (last : Bool) (a b : Value) :
    (v.put spot last a).put spot last b = v.put spot last b := by
  cases v <;> cases spot <;> cases last <;> simp [put, Entries.put_put, Entries.set_set]

/-- `reach` finds what `put` has put. -/
theorem reach_put (h : v.reach key last = .ok (spot, child)) (c : Value) :
    (v.put spot last c).reach key last = .ok (spot, c) := by
  rcases reach_eq_ok h with ⟨entries, name, rfl, named, rfl, rfl, inner⟩ |
    ⟨items, n, i, rfl, rfl, place, rfl, got⟩
  · cases last with
    | true => simp [put, reach, named]
    | false => simp [put, reach, named, Entries.get?_set_self (inner rfl)]
  · have inside := (List.getElem?_eq_some_iff.1 got).1
    simp [put, reach, place, inside]

/-- `put` of what stands in a place on the way already changes nothing. -/
theorem put_self (h : v.reach key false = .ok (spot, child)) : v.put spot false child = v := by
  rcases reach_eq_ok h with ⟨entries, name, rfl, -, rfl, rfl, inner⟩ |
    ⟨items, n, i, rfl, -, -, rfl, got⟩
  · obtain ⟨child, there⟩ := Option.isSome_iff_exists.1 (inner rfl)
    rw [there]
    exact congrArg map (Entries.set_self there)
  · obtain ⟨inside, rfl⟩ := List.getElem?_eq_some_iff.1 got
    exact congrArg list (List.set_getElem_self inside)

/-- `select` at another place finds what it found, and so does a length. -/
theorem select_put_of_ne (ne : v.spot? other ≠ some spot) (last : Bool) (c : Value) :
    (v.put spot last c).select other = v.select other := by
  cases v with
  | map entries =>
    cases spot with
    | item i => rfl
    | entry name =>
      cases named : other.mapKey with
      | ok name' =>
        have apart : name' ≠ name := by
          rintro rfl
          exact ne (spot?_map_eq_some.2 named)
        rw [put, select_map named, select_map named]
        cases last with
        | true => simp [Entries.get?_put_of_ne apart]
        | false => simp [Entries.get?_set_of_ne apart]
      | error f =>
        cases other with
        | name s => cases named
        | value k =>
          cases k with
          | str s => cases named
          | int n => cases named
          | _ => rfl
  | list items =>
    cases spot with
    | entry name => rfl
    | item i =>
      cases other with
      | name s => simp [put, select, member]
      | value k =>
        cases k with
        | int n =>
          cases place : position? n with
          | none => simp [put, select, item, place]
          | some j =>
            have apart : i ≠ j := by
              rintro rfl
              exact ne (congrArg (Option.map Spot.item) place)
            simp [put, select, item, place, apart]
        | _ => rfl
  | _ => rfl

end Reached

/-! ## One step of a write -/

variable {new v updated : Value} {key : PathKey} {path rest other : List PathKey}

theorem writePath_cons_eq_ok (h : writePath new (key :: rest) v = .ok () updated) :
    ∃ spot child changed, v.reach key rest.isEmpty = .ok (spot, child) ∧
      writePath new rest child = .ok () changed ∧ updated = v.put spot rest.isEmpty changed := by
  rw [writePath_cons] at h
  cases reached : v.reach key rest.isEmpty with
  | error f =>
    rw [reached] at h
    cases h
  | ok found =>
    obtain ⟨spot, child⟩ := found
    simp only [reached, Change.within] at h
    cases written : writePath new rest child with
    | error f part =>
      rw [written] at h
      cases h
    | ok _ changed =>
      rw [written] at h
      cases h
      exact ⟨spot, child, changed, rfl, written, rfl⟩

/-- `writePath` that fails leaves the value as it was.  The induction is on the path: on
the way up, each place gets back what stood there. -/
theorem writePath_eq_error {f : ScriptFault} (h : writePath new path v = .error f updated) :
    updated = v := by
  induction path generalizing v updated with
  | nil => cases h
  | cons key rest ih =>
    rw [writePath_cons] at h
    cases reached : v.reach key rest.isEmpty with
    | error g =>
      rw [reached] at h
      cases h
      rfl
    | ok found =>
      obtain ⟨spot, child⟩ := found
      simp only [reached, Change.within] at h
      cases written : writePath new rest child with
      | ok _ changed =>
        rw [written] at h
        cases h
      | error g part =>
        rw [written] at h
        cases h
        have inner : rest.isEmpty = false := by
          cases rest with
          | nil => cases written
          | cons => rfl
        rw [inner] at reached ⊢
        rw [ih written]
        exact put_self reached

end Value

end LedgerScript
