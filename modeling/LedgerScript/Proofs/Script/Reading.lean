import LedgerScript.Script.Parser

/-!
# Single steps of the parser

What the smallest parts of the parser do to the tokens that are left
(`Tokens.list`); the places of tokens matter to faults only.
-/

namespace LedgerScript.Script

namespace Tokens

/-- The tokens without their places. -/
def list (input : Tokens) : List Token := input.placed.map Placed.token

/-- What is left after the next token. -/
def tail (input : Tokens) : Tokens := { input with placed := input.placed.tail }

@[simp] theorem list_tail (input : Tokens) : input.tail.list = input.list.tail := by
  unfold tail list
  exact List.map_tail

end Tokens

namespace Parser

variable {α β : Type} {x : Parse α} {f : α → Parse β} {input rest : Input} {ts : List Token}
  {t : Token} {s : Symbol}

/-! ## Sequences -/

theorem bind_apply {a : α} (h : x input = .ok (a, rest)) : (x >>= f) input = f a rest := by
  change (x input >>= fun p => f p.1 p.2) = f a rest
  rw [h]
  rfl

theorem bind_eq_ok {b : β} (h : (x >>= f) input = .ok (b, rest)) :
    ∃ a mid, x input = .ok (a, mid) ∧ f a mid = .ok (b, rest) := by
  cases hx : x input with
  | error e =>
    change (x input >>= fun p => f p.1 p.2) = _ at h
    rw [hx] at h
    cases h
  | ok p =>
    obtain ⟨a, mid⟩ := p
    exact ⟨a, mid, rfl, (bind_apply hx).symm.trans h⟩

/-! ## Tokens -/

theorem peek_apply (input : Input) : peek input = .ok (input.list.head?, input) := by
  unfold peek Tokens.list
  rw [List.head?_map]

theorem advance_apply (input : Input) : advance input = .ok ((), input.tail) := rfl

theorem turns_apply (input : Input) : turns input = .ok (input.list.length + 1, input) := by
  unfold turns Tokens.list
  rw [List.length_map]

theorem at?_apply (t : Token) (input : Input) :
    at? t input = .ok (decide (input.list.head? = some t), input) :=
  bind_apply (peek_apply input)

theorem eat_apply (s : Symbol) (input : Input) :
    eat s input = if input.list.head? = some (.symbol s) then .ok (true, input.tail)
      else .ok (false, input) := by
  refine (bind_apply (at?_apply (.symbol s) input)).trans ?_
  by_cases next : input.list.head? = some (.symbol s)
  · rw [if_pos next, decide_eq_true next]
    rfl
  · rw [if_neg next, decide_eq_false next]
    rfl

/-- What follows `eat` depends on whether the symbol was there to be taken. -/
theorem eat_ite (s : Symbol) (y z : Parse α) (input : Input) :
    (do if ← eat s then y else z) input =
      if input.list.head? = some (.symbol s) then y input.tail else z input := by
  by_cases next : input.list.head? = some (.symbol s)
  · rw [if_pos next]
    exact bind_apply ((eat_apply s input).trans (if_pos next))
  · rw [if_neg next]
    exact bind_apply ((eat_apply s input).trans (if_neg next))

theorem at?_ite (t : Token) (y z : Parse α) (input : Input) :
    (do if ← at? t then y else z) input =
      if input.list.head? = some t then y input else z input := by
  refine (bind_apply (at?_apply t input)).trans ?_
  by_cases next : input.list.head? = some t
  · rw [if_pos next, decide_eq_true next]
    rfl
  · rw [if_neg next, decide_eq_false next]
    rfl

theorem expect_apply (s : Symbol) (what : Expectation) (input : Input) :
    expect s what input = if input.list.head? = some (.symbol s) then .ok ((), input.tail)
      else unexpected what input :=
  eat_ite s (pure ()) (unexpected what) input

theorem ident_apply (what : Expectation) (input : Input) :
    ident what input =
      match input.list.head? with
      | some (.ident name) => .ok (name, input.tail)
      | _ => unexpected what input := by
  refine (bind_apply (peek_apply input)).trans ?_
  cases input.list.head? with
  | none => rfl
  | some t => cases t <;> rfl

/-! ## What was taken -/

theorem list_of_head? (h : input.list.head? = some t) : input.list = t :: input.tail.list := by
  obtain ⟨ts, whole⟩ := List.head?_eq_some_iff.1 h
  rw [Tokens.list_tail, whole]
  rfl

theorem eat_ite_eq_ok {y z : Parse α} {a : α}
    (h : (do if ← eat s then y else z) input = .ok (a, rest)) :
    (∃ next : Input, input.list = .symbol s :: next.list ∧ y next = .ok (a, rest)) ∨
      z input = .ok (a, rest) := by
  rw [eat_ite] at h
  split at h
  · next ahead => exact .inl ⟨input.tail, list_of_head? ahead, h⟩
  · exact .inr h

/-- `operator?` takes nothing; an operator that it finds stands in the table. -/
theorem operator?_eq_ok {ops : List (Symbol × α)} {op? : Option α}
    (h : operator? ops input = .ok (op?, rest)) :
    rest = input ∧
      ∀ op, op? = some op → ∃ s, (s, op) ∈ ops ∧ input.list.head? = some (.symbol s) := by
  unfold operator? at h
  rw [bind_apply (peek_apply input)] at h
  cases ahead : input.list.head? with
  | none =>
    rw [ahead] at h
    cases h
    exact ⟨rfl, fun op none => nomatch none⟩
  | some t =>
    rw [ahead] at h
    cases t with
    | symbol s =>
      cases h
      refine ⟨rfl, fun op found => ?_⟩
      obtain ⟨before, after, rfl, -⟩ := List.lookup_eq_some_iff.1 found
      exact ⟨s, by simp, rfl⟩
    | _ =>
      cases h
      exact ⟨rfl, fun op none => nomatch none⟩

theorem expect_eq_ok {what : Expectation} {u : Unit} (h : expect s what input = .ok (u, rest)) :
    input.list = .symbol s :: rest.list := by
  rw [expect_apply] at h
  split at h
  · next ahead =>
    cases h
    exact list_of_head? ahead
  · cases h

theorem ident_eq_ok {what : Expectation} {name : String} (h : ident what input = .ok (name, rest)) :
    input.list = .ident name :: rest.list := by
  rw [ident_apply] at h
  split at h
  · next ahead =>
    cases h
    exact list_of_head? ahead
  · cases h

end Parser

end LedgerScript.Script
