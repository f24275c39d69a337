import LedgerScript.Proofs.Sequence
import LedgerScript.State.Access

/-!
# Refused accesses

An access to the state is refused for few reasons (`ContractError.OfAccess`):
the key is not the script's, the script is at fault, there is no room for one
more write, or the stored bytes are no value.
-/

namespace LedgerScript

variable {α β : Type}

/-- An error that an access to the state may end with. -/
def ContractError.OfAccess : ContractError → Prop
  | .namespaceViolation _ _ | .script _ | .exhausted .stateWrites _ _
  | .state (.corrupted _ _) => True
  | _ => False

/-- `x.Refuses`: `x` fails only with an error that is `OfAccess`. -/
def Viewing.Refuses (x : Viewing α) : Prop :=
  ∀ ⦃view next : View⦄ ⦃e : ContractError⦄, x view = .error e next → e.OfAccess

theorem ofAccess_of_ownKey {own : Namespace} {raw name : String} {maxLength : Nat}
    {e : ContractError} (h : ownKey own raw name maxLength = .error e) : e.OfAccess := by
  unfold ownKey at h
  split at h
  · cases h
    trivial
  · split at h
    · cases h
      trivial
    · split at h <;> cases h
      trivial

theorem ofAccess_of_resolveKey {own : Namespace} {raw : String} {maxLength : Nat}
    {e : ContractError} (h : resolveKey own raw maxLength = .error e) : e.OfAccess := by
  unfold resolveKey at h
  split at h
  · exact ofAccess_of_ownKey h
  · split at h
    · exact ofAccess_of_ownKey h
    · split at h <;> cases h <;> trivial

theorem ofAccess_of_decodeValue {key : StateKey} {bytes : List UInt8} {e : ContractError}
    (h : decodeValue key bytes = .error e) : e.OfAccess := by
  unfold decodeValue at h
  split at h
  · cases h
    trivial
  · split at h <;> cases h
    trivial

namespace Viewing.Refuses

theorem pure (a : α) : Refuses (pure a : Viewing α) := fun _ _ _ h => by cases h

theorem modify (f : View → View) : Refuses (modify f : Viewing PUnit) := fun _ _ _ h => by cases h

theorem bind {x : Viewing α} {f : α → Viewing β} (hx : Refuses x) (hf : ∀ a, Refuses (f a)) :
    Refuses (x >>= f) := by
  intro view next e h
  cases first : x view with
  | ok a mid =>
    rw [bind_of_ok first] at h
    exact hf a h
  | error f mid =>
    rw [bind_of_error first] at h
    cases h
    exact hx first

theorem ofExcept {x : Except ContractError α} (hx : ∀ e, x = .error e → e.OfAccess) :
    Refuses (Viewing.ofExcept x) := by
  intro view next e h
  unfold Viewing.ofExcept at h
  cases x with
  | ok a => cases h
  | error f =>
    cases h
    exact hx _ rfl

theorem readThrough (entries : Committed) (key : StateKey) :
    Refuses (Access.readThrough entries key) := by
  intro view next e h
  unfold Access.readThrough at h
  split at h <;> cases h

theorem checkWriteCount (limits : StateLimits) (key : StateKey) :
    Refuses (Access.checkWriteCount limits key) := by
  intro view next e h
  unfold Access.checkWriteCount at h
  split at h
  · cases h
  · split at h <;> cases h
    trivial

theorem get (entries : Committed) (limits : StateLimits) (own : Namespace) (raw : String) :
    Refuses (Access.get entries limits own raw) := by
  refine bind (ofExcept fun _ => ofAccess_of_resolveKey) fun key =>
    bind (readThrough entries key) ?_
  rintro (_ | bytes)
  · exact pure _
  · exact ofExcept fun _ => ofAccess_of_decodeValue

theorem set (limits : StateLimits) (own : Namespace) (raw : String) (v : Value) :
    Refuses (Access.set limits own raw v) := by
  refine bind (ofExcept fun _ => ofAccess_of_resolveKey) fun key => bind (ofExcept fun e h => ?_)
    fun bytes => bind (checkWriteCount limits key) fun _ => bind (modify _) fun _ => pure _
  cases encoded : encodeValue v limits.maxValueSize.toNat with
  | ok bytes =>
    rw [encoded] at h
    cases h
  | error f =>
    rw [encoded] at h
    cases h
    trivial

theorem delete (limits : StateLimits) (own : Namespace) (raw : String) :
    Refuses (Access.delete limits own raw) :=
  bind (ofExcept fun _ => ofAccess_of_resolveKey) fun key => bind (checkWriteCount limits key)
    fun _ => modify _

end Viewing.Refuses

end LedgerScript
