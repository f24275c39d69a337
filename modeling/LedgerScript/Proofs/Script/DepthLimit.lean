import LedgerScript.Proofs.Script.Reading
import LedgerScript.Proofs.Sequence

/-!
# More depth

A reader with room for more levels goes as one with less room does, until the one with
less finds that something nests too deep (`Parser.Deepens`).  So the limit that a source
is read with changes no other verdict on it (`parse_of_limit_le`).
-/

namespace LedgerScript.Script

/-- The fault is the depth of what is nested. -/
def ParseError.TooDeep (e : ParseError) : Prop := ∃ limit, e.fault = .nestingTooDeep limit

namespace Parser

variable {α β : Type} {x x' y y' : Parse α} {limit limit' : Nat}

/-- Unless something nests too deep for `x`, `y` goes as `x` does. -/
def Deepens (x y : Parse α) : Prop :=
  ∀ input, (∃ e, x input = .error e ∧ e.TooDeep) ∨ y input = x input

namespace Deepens

theorem refl (x : Parse α) : Deepens x x := fun _ => .inr rfl

theorem tooDeep (limit : Nat) (y : Parse α) : Deepens (tooDeep limit) y :=
  fun _ => .inl ⟨_, rfl, limit, rfl⟩

theorem bind {f g : α → Parse β} (hxy : Deepens x y) (hfg : ∀ a, Deepens (f a) (g a)) :
    Deepens (x >>= f) (y >>= g) := by
  intro input
  have error {z : Parse α} {h : α → Parse β} {e : ParseError} (stopped : z input = .error e) :
      (z >>= h) input = .error e := by
    change (z input >>= fun p => h p.1 p.2) = _
    rw [stopped]
    rfl
  rcases hxy input with ⟨e, stopped, deep⟩ | same
  · exact .inl ⟨e, error stopped, deep⟩
  · cases ran : x input with
    | error e => exact .inr ((error (same.trans ran)).trans (error ran).symm)
    | ok p =>
      obtain ⟨a, rest⟩ := p
      rw [bind_apply ran, bind_apply (same.trans ran)]
      exact hfg a rest

/-- `Deepens` behind a part that is the same for both. -/
theorem after (x : Parse α) {f g : α → Parse β} (hfg : ∀ a, Deepens (f a) (g a)) :
    Deepens (x >>= f) (x >>= g) := (refl x).bind hfg

theorem ite {c : Prop} [Decidable c] (hxy : Deepens x y) (hxy' : Deepens x' y') :
    Deepens (if c then x else x') (if c then y else y') := by
  split
  · exact hxy
  · exact hxy'

/-- `Deepens` for a choice by the same token. -/
theorem ask {test : Parse Bool} (hxy : Deepens x y) (hxy' : Deepens x' y') :
    Deepens (do if ← test then x else x') (do if ← test then y else y') :=
  after test fun _ => .ite hxy hxy'

end Deepens

/-! ## Expressions -/

section Expressions

variable {expr expr' : Parse Expr} (h : Deepens expr expr')

include h

theorem deepens_items (close : Symbol) (n : Nat) :
    Deepens (items expr close n) (items expr' close n) := by
  induction n with
  | zero => exact .refl _
  | succ n ih =>
    exact .ask (.refl _) <| .bind h fun _ => .ask (.bind ih fun _ => .refl _) (.refl _)

theorem deepens_entries (n : Nat) : Deepens (entries expr n) (entries expr' n) := by
  induction n with
  | zero => exact .refl _
  | succ n ih =>
    have further : ∀ key : String, Deepens
        (do
          expect .colon
          let value ← expr
          if ← eat .comma then return (key, value) :: (← entries expr n)
          expect .rightBrace .commaOrBrace
          return [(key, value)])
        (do
          expect .colon
          let value ← expr'
          if ← eat .comma then return (key, value) :: (← entries expr' n)
          expect .rightBrace .commaOrBrace
          return [(key, value)]) :=
      fun key => .after _ fun _ => .bind h fun _ => .ask (.bind ih fun _ => .refl _) (.refl _)
    refine .ask (.refl _) <| .after _ fun ahead => .after _ fun _ => ?_
    split
    · exact further _
    · exact further _
    · exact .after _ fun key => further key

theorem deepens_primary : Deepens (primary expr) (primary expr') := by
  refine .after _ fun ahead => ?_
  cases ahead with
  | none => exact .refl _
  | some t =>
    cases t with
    | ident name => exact .refl _
    | int n => exact .refl _
    | str s => exact .refl _
    | keyword kw => cases kw <;> exact .refl _
    | symbol s =>
      cases s with
      | leftParen => exact .after _ fun _ => .bind h fun _ => .refl _
      | leftBracket =>
        exact .after _ fun _ => .after _ fun n => .bind (deepens_items h _ n) fun _ => .refl _
      | leftBrace =>
        exact .after _ fun _ => .after _ fun n => .bind (deepens_entries h n) fun _ => .refl _
      | _ => exact .refl _

theorem deepens_accesses (n : Nat) (base : Expr) :
    Deepens (accesses expr n base) (accesses expr' n base) := by
  induction n generalizing base with
  | zero => exact .refl _
  | succ n ih =>
    refine .ask (.after _ fun name => ih _) <| .ask ?_ <| .ask ?_ (.refl _)
    · exact .bind h fun key => .after _ fun _ => ih _
    · split
      · exact .after _ fun _ => .after _ fun n => .bind (deepens_items h _ n) fun _ => ih _
      · exact .refl _

end Expressions

theorem deepens_level (ops : List (Symbol × α)) (join : α → Expr → Expr → Expr)
    {operand operand' : Parse Expr} (h : Deepens operand operand') :
    Deepens (level ops join operand) (level ops join operand') := by
  have further (n : Nat) : ∀ left,
      Deepens (joined ops join operand n left) (joined ops join operand' n left) := by
    induction n with
    | zero => exact fun _ => .refl _
    | succ n ih =>
      refine fun left => .after _ fun op? => ?_
      split
      · exact .after _ fun _ => .bind h fun right => ih _
      · exact .refl _
  exact .bind h fun left => .after _ fun n => further n left

theorem deepens_operators {unary unary' : Parse Expr} (h : Deepens unary unary') :
    Deepens (operators unary) (operators unary') :=
  deepens_level _ _ <| deepens_level _ _ <| deepens_level _ _ <| deepens_level _ _ <|
    deepens_level _ _ <| deepens_level _ _ h

theorem deepens_unaryWith {deeper deeper' expr expr' : Parse Expr} (hd : Deepens deeper deeper')
    (h : Deepens expr expr') : Deepens (unaryWith deeper expr) (unaryWith deeper' expr') :=
  .ask (.bind hd fun _ => .refl _) <| .ask (.bind hd fun _ => .refl _) <|
    .bind (deepens_primary h) fun base => .after _ fun n => deepens_accesses h n base

/-- `unary` with more room `Deepens`.  The induction is on the smaller room: where none is
left, what opens is too deep. -/
theorem deepens_unary {room room' : Nat} (le : room ≤ room') :
    Deepens (unary limit room) (unary limit' room') := by
  induction room generalizing room' with
  | zero => cases room' <;> exact deepens_unaryWith (.tooDeep _ _) (.tooDeep _ _)
  | succ room ih =>
    obtain ⟨more, rfl⟩ := Nat.exists_eq_add_of_le' le
    have inner := ih (Nat.le_add_left room more)
    exact deepens_unaryWith inner (deepens_operators inner)

theorem deepens_expr {room room' : Nat} (le : room ≤ room') :
    Deepens (expr limit room) (expr limit' room') := by
  cases room with
  | zero => exact .tooDeep _ _
  | succ room =>
    obtain ⟨more, rfl⟩ := Nat.exists_eq_add_of_le' le
    exact deepens_operators (deepens_unary (Nat.le_add_left room more))

/-! ## Statements -/

/-- `scope.Roomier scope'`: the same place with at least as much room in `scope'`. -/
structure Scope.Roomier (scope scope' : Scope) : Prop where
  room : scope.room ≤ scope'.room
  inLoop : scope'.inLoop = scope.inLoop

section Scopes

variable {scope scope' : Scope} (h : scope.Roomier scope')

include h

theorem Deepens.expr : Deepens scope.expr scope'.expr := deepens_expr h.room

/-- `enter` takes one level of either room. -/
theorem Deepens.enter {f g : Scope → Parse α}
    (hfg : ∀ inner inner' : Scope, inner.Roomier inner' → Deepens (f inner) (g inner')) :
    Deepens (scope.enter >>= f) (scope'.enter >>= g) := by
  obtain ⟨limit, room, inLoop⟩ := scope
  obtain ⟨limit', room', inLoop'⟩ := scope'
  obtain ⟨le, same⟩ := h
  cases room with
  | zero => exact fun _ => .inl ⟨_, rfl, limit, rfl⟩
  | succ room =>
    cases room' with
    | zero => exact absurd le (Nat.not_succ_le_zero room)
    | succ room' => exact hfg _ _ ⟨Nat.le_of_succ_le_succ le, same⟩

theorem deepens_binding (constant : Bool) :
    Deepens (binding scope constant) (binding scope' constant) :=
  .after _ fun _ => .after _ fun _ => .ask (.bind (.expr h) fun _ => .refl _) (.refl _)

theorem deepens_condition : Deepens (condition scope) (condition scope') :=
  .after _ fun _ => .after _ fun _ => .bind (.expr h) fun _ => .refl _

theorem deepens_expressionStatement :
    Deepens (expressionStatement scope) (expressionStatement scope') := by
  refine .after _ fun start => .bind (.expr h) fun left => .after _ fun op? => ?_
  split
  · refine .after _ fun _ => ?_
    split
    · exact .refl _
    · exact .bind (.expr h) fun _ => .refl _
  · exact .refl _

end Scopes

theorem deepens_statements {statement statement' : Parse Stmt} (h : Deepens statement statement')
    (n : Nat) : Deepens (statements statement n) (statements statement' n) := by
  induction n with
  | zero => exact .refl _
  | succ n ih =>
    refine .after _ fun ahead => ?_
    split
    · exact .refl _
    · exact .refl _
    · exact .bind h fun _ => .bind ih fun _ => .refl _

section Inside

variable {statement : Scope → Parse Stmt}
  (inside : ∀ scope scope' : Scope, scope.Roomier scope' →
    Deepens (statement scope) (statement scope'))
  {scope scope' : Scope} (h : scope.Roomier scope')

include inside h

theorem deepens_block : Deepens (block statement scope) (block statement scope') :=
  .after _ fun _ => .enter h fun inner inner' roomier => .after _ fun n =>
    deepens_statements (inside inner inner' roomier) n

theorem deepens_body : Deepens (body statement scope) (body statement scope') :=
  .ask (deepens_block inside h) (.bind (inside _ _ h) fun _ => .refl _)

theorem deepens_branch : Deepens (branch statement scope) (branch statement scope') :=
  .bind (deepens_condition h) fun _ => .bind (deepens_body inside h) fun _ =>
    .ask (.after _ fun _ => .ask
      (.enter h fun inner inner' roomier => .bind (inside inner inner' roomier) fun _ => .refl _)
      (.bind (deepens_body inside h) fun _ => .refl _)) (.refl _)

theorem deepens_statementWith :
    Deepens (statementWith statement scope) (statementWith statement scope') := by
  have looping : Scope.Roomier { scope with inLoop := true } { scope' with inLoop := true } :=
    ⟨h.room, rfl⟩
  refine .after _ fun ahead => ?_
  split
  · exact .bind (deepens_binding h false) fun _ => .refl _
  · exact .bind (deepens_binding h true) fun _ => .refl _
  · exact deepens_branch inside h
  · exact .bind (deepens_condition h) fun _ =>
      .bind (deepens_body inside looping) fun _ => .refl _
  · rw [h.inLoop]
    exact .refl _
  · rw [h.inLoop]
    exact .refl _
  · refine .after _ fun _ => .after _ fun behind => ?_
    split
    · exact .refl _
    · exact .refl _
    · exact .bind (.expr h) fun _ => .refl _
  · exact .after _ fun _ => .bind (.expr h) fun _ => .refl _
  · exact .refl _
  · exact .bind (deepens_block inside h) fun _ => .refl _
  · exact .refl _
  · exact deepens_expressionStatement h

end Inside

theorem deepens_statement (size : Nat) {scope scope' : Scope} (h : scope.Roomier scope') :
    Deepens (statement size scope) (statement size scope') := by
  induction size generalizing scope scope' with
  | zero => exact .refl _
  | succ size ih => exact deepens_statementWith (fun _ _ roomier => ih roomier) h

/-! ## The top level -/

section TopLevel

variable {scope scope' : Scope} (h : scope.Roomier scope')

include h

theorem deepens_function : Deepens (function scope) (function scope') := by
  have rest : ∀ (name : String) (names : List String), Deepens
      (do
        expect .rightParen
        let body ← block (statement (← turns)) scope
        return Function.mk name names body)
      (do
        expect .rightParen
        let body ← block (statement (← turns)) scope'
        return Function.mk name names body) :=
    fun name names => .after _ fun _ => .after _ fun n =>
      .bind (deepens_block (fun _ _ => deepens_statement n) h) fun _ => .refl _
  exact .after _ fun _ => .after _ fun name => .after _ fun _ =>
    .ask (rest name []) (.after _ fun n => .after _ fun names => rest name names)

theorem deepens_declarations (n : Nat) (program : Program) :
    Deepens (declarations scope n program) (declarations scope' n program) := by
  induction n generalizing program with
  | zero => exact .refl _
  | succ n ih =>
    refine .after _ fun start => .after _ fun ahead => ?_
    split
    · exact .refl _
    · exact .after _ fun _ => ih _
    · exact .bind (deepens_function h) fun _ => .after _ fun next => ih next
    · exact .bind (deepens_binding h false) fun _ => .after _ fun next => ih next
    · exact .bind (deepens_binding h true) fun _ => .after _ fun next => ih next
    · exact .refl _

end TopLevel

end Parser

/-- **More depth changes no other verdict.**  A source from which `parse` makes a program
under the limit `d` gives the same program under every higher limit `d'`, and one that it
refuses with an error that is not `TooDeep` is refused with the same fault at the same
place. -/
theorem parse_of_limit_le {d d' : Nat} (le : d ≤ d') (source : String) :
    (∀ p, parse source d = .ok p → parse source d' = .ok p) ∧
      ∀ e, parse source d = .error e → ¬ e.TooDeep → parse source d' = .error e := by
  cases read : tokenize source with
  | error e =>
    have refused (limit : Nat) : parse source limit = .error e := by
      unfold parse
      rw [read]
      rfl
    rw [refused d, refused d']
    exact ⟨fun _ => id, fun _ same _ => same⟩
  | ok tokens =>
    let scope (limit : Nat) : Parser.Scope := ⟨limit, limit, false⟩
    have parsed (limit : Nat) : parse source limit =
        (Parser.declarations (scope limit) (tokens.placed.length + 1) {} tokens).map Prod.fst := by
      unfold parse
      rw [read]
      rfl
    rw [parsed d, parsed d']
    have roomier : (scope d).Roomier (scope d') := ⟨le, rfl⟩
    rcases Parser.deepens_declarations roomier (tokens.placed.length + 1) {} tokens with
      ⟨e, stopped, deep⟩ | same
    · rw [stopped]
      exact ⟨fun _ => nofun, fun _ same other => by cases same; exact absurd deep other⟩
    · rw [same]
      exact ⟨fun _ => id, fun _ same _ => same⟩

namespace RaisedLimit

/-- Two levels: a block, and an expression in it. -/
def shallow : String := "function f() \x7b return 1; \x7d"

/-- Has no value where it promises one, inside two levels. -/
def broken : String := "function f() \x7b const x; \x7d"

/-- `parse_of_limit_le` for both: the program of the one and the fault of the other stay
when thirty levels may open. -/
theorem verdicts_stay : 2 ≤ 32 ∧
    (∃ p, parse shallow 2 = .ok p ∧ parse shallow 32 = .ok p) ∧
      parse broken 2 = .error ⟨.constWithoutValue, 1, 23⟩ ∧
        parse broken 32 = .error ⟨.constWithoutValue, 1, 23⟩ := by
  have le : 2 ≤ 32 := by decide
  have evaluated : (parse shallow 2).toOption.any (fun _ => true) = true := by decide +kernel
  obtain ⟨p, parsed, -⟩ := exists_ok_of_any evaluated
  have refused : parse broken 2 = .error ⟨.constWithoutValue, 1, 23⟩ :=
    eq_error_of_error? (by decide +kernel)
  have other : ¬ (ParseError.mk .constWithoutValue ⟨1, 23⟩).TooDeep := nofun
  exact ⟨le, ⟨p, parsed, (parse_of_limit_le le shallow).1 p parsed⟩, refused,
    (parse_of_limit_le le broken).2 _ refused other⟩

end RaisedLimit

end LedgerScript.Script
