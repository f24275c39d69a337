import LedgerScript.Proofs.Script.Reading

/-!
# Following the parser

The parser is followed along tokens that it takes, from what it is about to do to
what it does with the rest (`Parser.Leads`), also from one turn of a loop to the
next (`Parser.Continues`).
-/

namespace LedgerScript.Script

namespace Parser

variable {α β : Type} {x : Parse α} {a : α} {f : α → Parse β} {y y' z : Parse β}
  {ts us rest : List Token} {t : Token} {s : Symbol} {what : Expectation}

/-! ## Taking tokens -/

/-- `x` takes tokens, and goes on as `y` with the rest. -/
def Leads (x : Parse α) (taken rest : List Token) (y : Parse α) : Prop :=
  ∀ ⦃input : Input⦄, input.list = taken ++ rest → ∃ next, x input = y next ∧ next.list = rest

/-- `x` takes tokens, and gives a result. -/
abbrev Reads (x : Parse α) (taken : List Token) (a : α) (rest : List Token) : Prop :=
  Leads x taken rest (pure a)

namespace Leads

theorem refl (x : Parse α) (rest : List Token) : Leads x [] rest x :=
  fun input whole => ⟨input, rfl, whole⟩

theorem bind (hx : Reads x ts a (us ++ rest)) (hf : Leads (f a) us rest y) :
    Leads (x >>= f) (ts ++ us) rest y := by
  intro input whole
  rw [List.append_assoc] at whole
  obtain ⟨mid, ran, left⟩ := hx whole
  obtain ⟨next, ran', left'⟩ := hf left
  exact ⟨next, (bind_apply ran).trans ran', left'⟩

/-- `Leads` to what comes after the last step that takes anything. -/
theorem last (hx : Reads x ts a rest) : Leads (x >>= f) ts rest (f a) := by
  intro input whole
  obtain ⟨mid, ran, left⟩ := hx whole
  exact ⟨mid, bind_apply ran, left⟩

/-- `Leads` through a first step that takes nothing. -/
theorem first (hx : Reads x [] a (ts ++ rest)) (hf : Leads (f a) ts rest y) :
    Leads (x >>= f) ts rest y := bind hx hf

/-- `Leads` through a first step that takes nothing, whatever its result. -/
theorem still (hx : ∀ input, ∃ a, x input = .ok (a, input)) (hf : ∀ a, Leads (f a) ts rest y) :
    Leads (x >>= f) ts rest y := by
  intro input whole
  obtain ⟨a, ran⟩ := hx input
  obtain ⟨next, ran', left⟩ := hf a whole
  exact ⟨next, (bind_apply ran).trans ran', left⟩

theorem position {f : Position → Parse β} (hf : ∀ start, Leads (f start) ts rest y) :
    Leads (position >>= f) ts rest y := .still (fun _ => ⟨_, rfl⟩) hf

theorem turns {f : Nat → Parse β} (hf : ∀ n, (ts ++ rest).length < n → Leads (f n) ts rest y) :
    Leads (turns >>= f) ts rest y := by
  intro input whole
  obtain ⟨next, ran, left⟩ := hf (input.list.length + 1) (whole ▸ Nat.lt_succ_self _) whole
  exact ⟨next, (bind_apply (turns_apply input)).trans ran, left⟩

theorem peek {f : Option Token → Parse β} (hf : Leads (f (ts ++ rest).head?) ts rest y) :
    Leads (peek >>= f) ts rest y := by
  intro input whole
  obtain ⟨next, ran, left⟩ := hf whole
  rw [← whole] at ran
  exact ⟨next, (bind_apply (peek_apply input)).trans ran, left⟩

theorem advance {f : Unit → Parse β} (hf : Leads (f ()) ts rest y) :
    Leads (advance >>= f) (t :: ts) rest y := by
  intro input whole
  have left : input.tail.list = ts ++ rest := by
    rw [Tokens.list_tail, whole]
    rfl
  obtain ⟨next, ran, left⟩ := hf left
  exact ⟨next, (bind_apply (advance_apply input)).trans ran, left⟩

/-- `eat` where the symbol is there to be taken. -/
theorem eat (hy : Leads y ts rest z) :
    Leads (do if ← eat s then y else y') (.symbol s :: ts) rest z := by
  intro input whole
  have ahead : input.list.head? = some (.symbol s) := by
    rw [whole]
    rfl
  have left : input.tail.list = ts ++ rest := by
    rw [Tokens.list_tail, whole]
    rfl
  obtain ⟨next, ran, left⟩ := hy left
  exact ⟨next, ((eat_ite s y y' input).trans (if_pos ahead)).trans ran, left⟩

/-- `eat` where something other than the symbol follows. -/
theorem skip (other : (ts ++ rest).head? ≠ some (.symbol s)) (hy : Leads y ts rest z) :
    Leads (do if ← Parser.eat s then y' else y) ts rest z := by
  intro input whole
  rw [← whole] at other
  obtain ⟨next, ran, left⟩ := hy whole
  exact ⟨next, ((eat_ite s y' y input).trans (if_neg other)).trans ran, left⟩

/-- `eat` where another token is taken first. -/
theorem skip_cons (other : t ≠ .symbol s) (hy : Leads y (t :: ts) rest z) :
    Leads (do if ← Parser.eat s then y' else y) (t :: ts) rest z := by
  refine skip ?_ hy
  rintro ⟨⟩
  exact other rfl

theorem at? (ahead : (ts ++ rest).head? = some t) (hy : Leads y ts rest z) :
    Leads (do if ← at? t then y else y') ts rest z := by
  intro input whole
  rw [← whole] at ahead
  obtain ⟨next, ran, left⟩ := hy whole
  exact ⟨next, ((at?_ite t y y' input).trans (if_pos ahead)).trans ran, left⟩

theorem not_at? (other : (ts ++ rest).head? ≠ some t) (hy : Leads y ts rest z) :
    Leads (do if ← Parser.at? t then y' else y) ts rest z := by
  intro input whole
  rw [← whole] at other
  obtain ⟨next, ran, left⟩ := hy whole
  exact ⟨next, ((at?_ite t y' y input).trans (if_neg other)).trans ran, left⟩

theorem expect {f : Unit → Parse β} (hf : Leads (f ()) ts rest y) :
    Leads (expect s what >>= f) (.symbol s :: ts) rest y := by
  intro input whole
  have ahead : input.list.head? = some (.symbol s) := by
    rw [whole]
    rfl
  have left : input.tail.list = ts ++ rest := by
    rw [Tokens.list_tail, whole]
    rfl
  obtain ⟨next, ran, left⟩ := hf left
  exact ⟨next, (bind_apply ((expect_apply s what input).trans (if_pos ahead))).trans ran, left⟩

theorem ident {name : String} {f : String → Parse β} (hf : Leads (f name) ts rest y) :
    Leads (ident what >>= f) (.ident name :: ts) rest y := by
  intro input whole
  have ahead : input.list.head? = some (.ident name) := by
    rw [whole]
    rfl
  have left : input.tail.list = ts ++ rest := by
    rw [Tokens.list_tail, whole]
    rfl
  have taken : Parser.ident what input = .ok (name, input.tail) := by
    rw [ident_apply, ahead]
  obtain ⟨next, ran, left⟩ := hf left
  exact ⟨next, (bind_apply taken).trans ran, left⟩

/-- `operator?` where an operator of the table follows. -/
theorem operator {γ : Type} {ops : List (Symbol × γ)} {op : γ} {f : Option γ → Parse β}
    (found : ops.lookup s = some op) (hf : Leads (f (some op)) (.symbol s :: ts) rest y) :
    Leads (operator? ops >>= f) (.symbol s :: ts) rest y := by
  intro input whole
  have looked : operator? ops input = .ok (some op, input) := by
    unfold operator?
    rw [bind_apply (peek_apply input), whole]
    exact congrArg (fun op? => Except.ok (op?, input)) found
  obtain ⟨next, ran, left⟩ := hf whole
  exact ⟨next, (bind_apply looked).trans ran, left⟩

theorem no_operator {γ : Type} {ops : List (Symbol × γ)} {f : Option γ → Parse β}
    (none : ∀ s, (ts ++ rest).head? = some (.symbol s) → ops.lookup s = none)
    (hf : Leads (f .none) ts rest y) : Leads (operator? ops >>= f) ts rest y := by
  intro input whole
  have looked : operator? ops input = .ok (.none, input) := by
    unfold operator?
    rw [bind_apply (peek_apply input)]
    rw [← whole] at none
    cases ahead : input.list.head? with
    | none => rfl
    | some t =>
      cases t with
      | symbol s => exact congrArg (fun op? => Except.ok (op?, input)) (none s ahead)
      | _ => rfl
  obtain ⟨next, ran, left⟩ := hf whole
  exact ⟨next, (bind_apply looked).trans ran, left⟩

end Leads

/-! ## Loops -/

/-- `x` takes tokens, and goes on as the loop `y` with turns enough for the rest. -/
def Continues (x : Parse α) (taken rest : List Token) (y : Nat → Parse α) : Prop :=
  ∀ ⦃input : Input⦄, input.list = taken ++ rest →
    ∃ n next, x input = y n next ∧ next.list = rest ∧ rest.length < n

namespace Continues

variable {y z : Nat → Parse α}

/-- `Continues` with one more turn of the loop, which takes something. -/
theorem turn (h : Continues x ts (t :: us ++ rest) y)
    (step : ∀ n, Leads (y (n + 1)) (t :: us) rest (z n)) :
    Continues x (ts ++ t :: us) rest z := by
  intro input whole
  rw [List.append_assoc] at whole
  obtain ⟨n, mid, ran, left, enough⟩ := h whole
  obtain ⟨m, rfl⟩ : ∃ m, n = m + 1 := ⟨n - 1, by omega⟩
  obtain ⟨next, ran', left'⟩ := step m left
  rw [List.length_append, List.length_cons] at enough
  exact ⟨m, next, ran.trans ran', left', by omega⟩

/-- `Reads` once the loop ends. -/
theorem reads (h : Continues x ts rest y) (stop : ∀ n, Reads (y n) [] a rest) :
    Reads x ts a rest := by
  intro input whole
  obtain ⟨n, mid, ran, left, -⟩ := h whole
  obtain ⟨next, ran', left'⟩ := stop n left
  exact ⟨next, ran.trans ran', left'⟩

end Continues

end Parser

end LedgerScript.Script
