import LedgerScript.Proofs.Script.Reading

/-!
# Parentheses

Expressions close the parentheses that they open (`closes_expr`), so the
parenthesis behind an expression is the one that was open before it.
-/

namespace LedgerScript.Script

/-! ## Closed tokens -/

/-- `behind n` is what stands behind the `n` parentheses that are open. -/
def behind : Nat → List Token → List Token
  | 0, rest => rest
  | _, [] => []
  | n + 1, t :: rest =>
    if t = .symbol .leftParen then behind (n + 2) rest
    else if t = .symbol .rightParen then behind n rest
    else behind (n + 1) rest

/-- Tokens that close every parenthesis that they open, and no other one. -/
def Closed (taken : List Token) : Prop :=
  ∀ n rest, behind (n + 1) (taken ++ rest) = behind (n + 1) rest

/-- `Spans before after`: tokens that are `Closed` lead from the one list to the other. -/
def Spans (before after : List Token) : Prop := ∃ taken, Closed taken ∧ before = taken ++ after

theorem behind_leftParen (n : Nat) (rest : List Token) :
    behind (n + 1) (.symbol .leftParen :: rest) = behind (n + 2) rest :=
  if_pos rfl

theorem behind_zero (rest : List Token) : behind 0 rest = rest := by
  cases rest <;> rfl

theorem behind_rightParen (n : Nat) (rest : List Token) :
    behind (n + 1) (.symbol .rightParen :: rest) = behind n rest := rfl

/-- Neither of the two parentheses. -/
def Token.Plain (t : Token) : Prop := t ≠ .symbol .leftParen ∧ t ≠ .symbol .rightParen

instance (t : Token) : Decidable t.Plain := inferInstanceAs (Decidable (_ ∧ _))

theorem closed_plain {t : Token} (h : t.Plain) : Closed [t] :=
  fun _ _ => (if_neg h.1).trans (if_neg h.2)

theorem Closed.append {first second : List Token} (h : Closed first) (h' : Closed second) :
    Closed (first ++ second) := by
  intro n rest
  rw [List.append_assoc, h, h']

theorem Closed.parens {inner : List Token} (h : Closed inner) :
    Closed (.symbol .leftParen :: inner ++ [.symbol .rightParen]) := by
  intro n rest
  rw [List.append_assoc, List.cons_append, behind_leftParen, h]
  exact behind_rightParen (n + 1) rest

namespace Spans

variable {before mid after : List Token} {t : Token}

theorem refl (before : List Token) : Spans before before := ⟨[], fun _ _ => rfl, rfl⟩

theorem trans (h : Spans before mid) (h' : Spans mid after) : Spans before after := by
  obtain ⟨first, closed, rfl⟩ := h
  obtain ⟨second, closed', rfl⟩ := h'
  exact ⟨first ++ second, closed.append closed', (List.append_assoc ..).symm⟩

theorem plain (ahead : before = t :: mid) (h : t.Plain) (further : Spans mid after) :
    Spans before after := by
  subst ahead
  exact trans ⟨[t], closed_plain h, rfl⟩ further

theorem parens (ahead : before = .symbol .leftParen :: mid)
    (h : Spans mid (.symbol .rightParen :: after)) : Spans before after := by
  obtain ⟨inner, closed, rfl⟩ := h
  refine ⟨_, closed.parens, ahead.trans ?_⟩
  simp

end Spans

namespace Parser

/-! ## Parts of the parser -/

/-- What `x` takes closes its own parentheses. -/
def Closes {α : Type} (x : Parse α) : Prop :=
  ∀ ⦃input rest : Input⦄ ⦃a : α⦄, x input = .ok (a, rest) → Spans input.list rest.list

/-- `Closes` where the next token is known. -/
def ClosesAt {α : Type} (ahead : Option Token) (x : Parse α) : Prop :=
  ∀ ⦃input rest : Input⦄ ⦃a : α⦄, input.list.head? = ahead → x input = .ok (a, rest) →
    Spans input.list rest.list

variable {α β : Type} {x y : Parse α} {input rest : Input} {s : Symbol} {what : Expectation}

namespace Closes

theorem pure (a : α) : Closes (pure a : Parse α) := by
  intro input rest b ran
  cases ran
  exact .refl _

theorem bind {f : α → Parse β} (hx : Closes x) (hf : ∀ a, Closes (f a)) : Closes (x >>= f) := by
  intro input rest b ran
  obtain ⟨a, mid, first, second⟩ := bind_eq_ok ran
  exact (hx first).trans (hf a second)

theorem throw (e : ParseError) : Closes (throw e : Parse α) := by
  intro input rest a ran
  cases ran

theorem fault (p : ParseFault) : Closes (fault p : Parse α) := by
  intro input rest a ran
  cases ran

theorem unexpected (what : Expectation) : Closes (unexpected what : Parse α) := by
  intro input rest a ran
  cases ran

/-- `Closes` for what leaves all tokens as they are. -/
theorem same (h : ∀ input, ∃ a, x input = .ok (a, input)) : Closes x := by
  intro input rest a ran
  obtain ⟨b, stays⟩ := h input
  rw [stays] at ran
  cases ran
  exact .refl _

theorem position : Closes position := same fun _ => ⟨_, rfl⟩

theorem turns : Closes turns := same fun _ => ⟨_, rfl⟩

theorem expect (h : (Token.symbol s).Plain) : Closes (expect s what) := by
  intro input rest u ran
  exact .plain (expect_eq_ok ran) h (.refl _)

theorem ident (what : Expectation) : Closes (ident what) := by
  intro input rest name ran
  exact .plain (ident_eq_ok ran) ⟨Token.noConfusion, Token.noConfusion⟩ (.refl _)

theorem eat (h : (Token.symbol s).Plain) (hx : Closes x) (hy : Closes y) :
    Closes (do if ← eat s then x else y) := by
  intro input rest a ran
  rcases eat_ite_eq_ok ran with ⟨next, ahead, ran⟩ | ran
  · exact .plain ahead h (hx ran)
  · exact hy ran

theorem endStatement : Closes endStatement := by
  intro input rest u ran
  obtain ⟨b, mid, eaten, ran⟩ := bind_eq_ok ran
  cases ran
  rw [eat_apply] at eaten
  split at eaten
  · next ahead =>
    cases eaten
    exact .plain (list_of_head? ahead) (by decide) (.refl _)
  · cases eaten
    exact .refl _

theorem at? {t : Token} (hx : ClosesAt (some t) x) (hy : Closes y) :
    Closes (do if ← at? t then x else y) := by
  intro input rest a ran
  rw [at?_ite] at ran
  split at ran
  · next ahead => exact hx ahead ran
  · exact hy ran

theorem peek {f : Option Token → Parse α} (h : ∀ ahead, ClosesAt ahead (f ahead)) :
    Closes (peek >>= f) := by
  intro input rest a ran
  rw [bind_apply (peek_apply input)] at ran
  exact h _ rfl ran

/-- What is known of the next token need not be used. -/
theorem ahead (hx : Closes x) (ahead : Option Token) : ClosesAt ahead x := fun _ _ _ _ ran => hx ran

end Closes

namespace ClosesAt

theorem advance {t : Token} (plain : t.Plain) (hx : Closes x) :
    ClosesAt (some t) (Parser.advance >>= fun _ => x) := by
  intro input rest a ahead ran
  exact .plain (list_of_head? ahead) plain (hx (a := a) ran)

/-- `Closes` for what stands between parentheses. -/
theorem within {f : α → Parse β} (hx : Closes x) (hf : ∀ a, Closes (f a)) :
    ClosesAt (some (.symbol .leftParen)) (Parser.advance >>= fun _ => x >>= fun a =>
      Parser.expect .rightParen what >>= fun _ => f a) := by
  intro input rest b ahead ran
  rw [bind_apply (advance_apply input)] at ran
  obtain ⟨a, mid, read, ran⟩ := bind_eq_ok ran
  obtain ⟨u, last, closing, ran⟩ := bind_eq_ok ran
  have closed := hx read
  rw [expect_eq_ok closing] at closed
  exact (Spans.parens (list_of_head? ahead) closed).trans (hf a ran)

end ClosesAt

/-! ### Expressions -/

section Expressions

variable {expr : Parse Expr} (h : Closes expr)

include h

/-- `items` reaches up to the symbol behind them, whichever it is. -/
theorem spans_items {close : Symbol} (n : Nat) {args : List Expr}
    (ran : items expr close n input = .ok (args, rest)) :
    Spans input.list (.symbol close :: rest.list) := by
  induction n generalizing input args with
  | zero => cases ran
  | succ n ih =>
    rcases eat_ite_eq_ok ran with ⟨next, ahead, ran⟩ | ran
    · cases ran
      exact ahead ▸ .refl _
    · obtain ⟨item, mid, read, ran⟩ := bind_eq_ok ran
      refine (h read).trans ?_
      rcases eat_ite_eq_ok ran with ⟨next, ahead, ran⟩ | ran
      · obtain ⟨more, last, read, ran⟩ := bind_eq_ok ran
        cases ran
        exact .plain ahead (by decide) (ih read)
      · obtain ⟨u, last, closing, ran⟩ := bind_eq_ok ran
        cases ran
        exact expect_eq_ok closing ▸ .refl _

theorem closes_items {close : Symbol} (plain : (Token.symbol close).Plain) (n : Nat) :
    Closes (items expr close n) := fun _ _ _ ran =>
  (spans_items h n ran).trans (.plain rfl plain (.refl _))

theorem closes_entries (n : Nat) : Closes (entries expr n) := by
  induction n with
  | zero => exact .unexpected _
  | succ n ih =>
    have further : ∀ key : String, Closes (do
        expect .colon
        let value ← expr
        if ← eat .comma then return (key, value) :: (← entries expr n)
        expect .rightBrace .commaOrBrace
        return [(key, value)]) := fun key =>
      .bind (.expect (by decide)) fun _ => .bind h fun _ => .eat (by decide)
        (.bind ih fun _ => .pure _) <| .bind (.expect (by decide)) fun _ => .pure _
    refine .eat (by decide) (.pure _) <| .peek fun ahead => ?_
    split
    · next name => exact .advance ⟨Token.noConfusion, Token.noConfusion⟩ (further name)
    · next s => exact .advance ⟨Token.noConfusion, Token.noConfusion⟩ (further s)
    · intro input rest a _ ran
      cases ran

theorem closes_primary : Closes (primary expr) := by
  refine .peek fun ahead => ?_
  have plain : ∀ {t : Token} (e : Expr), t.Plain →
      ClosesAt (some t) (advance >>= fun _ => Pure.pure e) :=
    fun e plain => .advance plain (.pure e)
  cases ahead with
  | none => exact (Closes.unexpected _).ahead _
  | some t =>
    cases t with
    | ident name => exact plain _ ⟨Token.noConfusion, Token.noConfusion⟩
    | int n => exact plain _ ⟨Token.noConfusion, Token.noConfusion⟩
    | str s => exact plain _ ⟨Token.noConfusion, Token.noConfusion⟩
    | keyword kw =>
      cases kw with
      | trueValue => exact plain _ (by decide)
      | falseValue => exact plain _ (by decide)
      | nullValue => exact plain _ (by decide)
      | _ => exact (Closes.unexpected _).ahead _
    | symbol s =>
      cases s with
      | leftParen => exact .within h .pure
      | leftBracket =>
        exact .advance (by decide) <| .bind .turns fun n =>
          .bind (closes_items h (by decide) n) fun _ => .pure _
      | leftBrace =>
        exact .advance (by decide) <| .bind .turns fun n =>
          .bind (closes_entries h n) fun _ => .pure _
      | _ => exact (Closes.unexpected _).ahead _

theorem closes_accesses (n : Nat) (base : Expr) : Closes (accesses expr n base) := by
  induction n generalizing base with
  | zero => exact .pure base
  | succ n ih =>
    refine .eat (by decide) (.bind (.ident _) fun name => ih _) <|
      .eat (by decide) (.bind h fun _ => .bind (.expect (by decide)) fun _ => ih _) <|
        .at? ?_ (.pure base)
    split
    · next name =>
      intro input rest a ahead ran
      rw [bind_apply (advance_apply input), bind_apply (turns_apply _)] at ran
      obtain ⟨args, mid, read, ran⟩ := bind_eq_ok ran
      exact (Spans.parens (list_of_head? ahead) (spans_items h _ read)).trans (ih _ ran)
    · exact (Closes.fault _).ahead _

end Expressions

/-- Symbols none of which is a parenthesis. -/
def Plain (ops : List (Symbol × α)) : Prop := ∀ p ∈ ops, (Token.symbol p.1).Plain

instance (ops : List (Symbol × α)) : Decidable (Plain ops) :=
  inferInstanceAs (Decidable (∀ p ∈ ops, _))

/-- `Closes` behind `operator?`: an operator that is found is taken. -/
theorem Closes.operator {ops : List (Symbol × α)} (plain : Plain ops) {f : Option α → Parse β}
    {found : α → Parse β} (hf : ∀ op, f (some op) = Parser.advance >>= fun _ => found op)
    (taken : ∀ op, Closes (found op)) (none : Closes (f none)) :
    Closes (operator? ops >>= f) := by
  intro input rest a ran
  obtain ⟨op?, mid, looked, after⟩ := bind_eq_ok ran
  obtain ⟨rfl, known⟩ := operator?_eq_ok looked
  cases op? with
  | none => exact none after
  | some op =>
    obtain ⟨s, mem, ahead⟩ := known op rfl
    rw [hf] at after
    exact ClosesAt.advance (plain _ mem) (taken op) ahead after

theorem closes_level {ops : List (Symbol × α)} (plain : Plain ops) {join : α → Expr → Expr → Expr}
    {operand : Parse Expr} (h : Closes operand) : Closes (level ops join operand) := by
  have further : ∀ n left, Closes (joined ops join operand n left) := by
    intro n
    induction n with
    | zero => exact fun left => .pure left
    | succ n ih =>
      exact fun left => .operator plain (fun _ => rfl) (fun op => .bind h fun right => ih _)
        (.pure left)
  exact .bind h fun left => .bind .turns fun n => further n left

theorem closes_operators {unary : Parse Expr} (h : Closes unary) : Closes (operators unary) :=
  closes_level (by decide) <| closes_level (by decide) <| closes_level (by decide) <|
    closes_level (by decide) <| closes_level (by decide) <| closes_level (by decide) h

theorem closes_unaryWith {deeper expr : Parse Expr} (hd : Closes deeper) (h : Closes expr) :
    Closes (unaryWith deeper expr) :=
  .eat (by decide) (.bind hd fun _ => .pure _) <| .eat (by decide) (.bind hd fun _ => .pure _) <|
    .bind (closes_primary h) fun base => .bind .turns fun n => closes_accesses h n base

theorem closes_unary (limit room : Nat) : Closes (unary limit room) := by
  induction room with
  | zero => exact closes_unaryWith (.fault _) (.fault _)
  | succ room ih => exact closes_unaryWith ih (closes_operators ih)

theorem closes_expr (limit room : Nat) : Closes (expr limit room) := by
  cases room with
  | zero => exact .fault _
  | succ room => exact closes_operators (closes_unary limit room)

end Parser

end LedgerScript.Script
