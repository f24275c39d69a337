/-!
# One step after the other

What a sequence of two steps does, given what its first step does, where a
computation ends, and that it returns something that checks out.
-/

namespace LedgerScript

variable {ε σ α β : Type} {x : EStateM ε σ α} {f : α → EStateM ε σ β} {s t : σ}

/-- In `x >>= f` the second step begins where the first one ended. -/
theorem bind_of_ok {a : α} (h : x s = .ok a t) : (x >>= f) s = f a t := by
  change EStateM.bind x f s = f a t
  unfold EStateM.bind
  rw [h]

/-- In `x >>= f` there is no second step after an error. -/
theorem bind_of_error {e : ε} (h : x s = .error e t) : (x >>= f) s = .error e t := by
  change EStateM.bind x f s = .error e t
  unfold EStateM.bind
  rw [h]

/-- Of its first step a sequence sees only what it does where the sequence begins. -/
theorem bind_congr_left {y : EStateM ε σ α} (h : x s = y s) : (x >>= f) s = (y >>= f) s := by
  change EStateM.bind x f s = EStateM.bind y f s
  unfold EStateM.bind
  rw [h]

/-- A sequence returns only if both of its steps do. -/
theorem bind_eq_ok {b : β} (h : (x >>= f) s = .ok b t) :
    ∃ a u, x s = .ok a u ∧ f a u = .ok b t := by
  cases hx : x s with
  | ok a u => exact ⟨a, u, rfl, by rw [← bind_of_ok (f := f) hx]; exact h⟩
  | error e u =>
    rw [bind_of_error hx] at h
    cases h

theorem except_bind_eq_ok {x : Except ε α} {f : α → Except ε β} {b : β}
    (h : (x >>= f) = .ok b) : ∃ a, x = .ok a ∧ f a = .ok b := by
  cases x with
  | error e => cases h
  | ok a => exact ⟨a, rfl, h⟩

theorem except_then_eq_ok_iff {x : Except ε Unit} {y : Except ε α} {a : α} :
    (x >>= fun _ => y) = .ok a ↔ x = .ok () ∧ y = .ok a := by
  cases x with
  | error e => exact ⟨fun h => (by cases h), fun h => (by cases h.1)⟩
  | ok u => exact ⟨fun h => ⟨rfl, h⟩, fun h => h.2⟩

/-- A computation that begins in `s` ends in `t`, with a result or with an
error. -/
def Ends (x : EStateM ε σ α) (s t : σ) : Prop :=
  (∃ a, x s = .ok a t) ∨ ∃ e, x s = .error e t

/-- A sequence ends where its first step failed, or where its second step ends. -/
theorem Ends.of_bind (h : Ends (x >>= f) s t) :
    (∃ e, x s = .error e t) ∨ ∃ a u, x s = .ok a u ∧ Ends (f a) u t := by
  cases hx : x s with
  | error e u =>
    unfold Ends at h
    rw [bind_of_error hx] at h
    rcases h with ⟨b, h⟩ | ⟨e, h⟩ <;> cases h
    exact .inl ⟨e, rfl⟩
  | ok a u =>
    unfold Ends at h
    rw [bind_of_ok hx] at h
    exact .inr ⟨a, u, rfl, h⟩

theorem eq_ok_of_toOption {x : Except ε α} {a : α} (h : x.toOption = some a) : x = .ok a := by
  cases x with
  | error e => cases h
  | ok b => exact congrArg Except.ok (Option.some.inj h)

/-- The error of a computation that has one. -/
def error? : Except ε α → Option ε
  | .error e => some e
  | .ok _ => none

theorem eq_error_of_error? {x : Except ε α} {e : ε} (h : error? x = some e) : x = .error e := by
  cases x with
  | error f => exact congrArg Except.error (Option.some.inj h)
  | ok a => cases h

theorem exists_ok_of_any {x : Except ε α} {check : α → Bool} (h : x.toOption.any check = true) :
    ∃ a, x = .ok a ∧ check a = true := by
  cases x with
  | error e => cases h
  | ok a => exact ⟨a, rfl, h⟩

end LedgerScript
