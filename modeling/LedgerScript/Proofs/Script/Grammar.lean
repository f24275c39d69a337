import LedgerScript.Proofs.Script.Pieces
import LedgerScript.Proofs.Script.Reading
import LedgerScript.Proofs.Script.Rendering

/-!
# What the parser yields

From legal tokens at places of some kind, whatever they are, the parser makes a
well-formed program or finds fault at a place of that kind (`Parser.Yields`,
`Parser.yields_declarations`).
-/

namespace LedgerScript.Script

/-- An expression whose `place?` is `target` is the expression of `target`. -/
theorem Expr.expr_of_place? : ∀ {e : Expr} {target : Place}, e.place? = some target →
    target.expr = e
  | .ident root, target, h => by
    cases h
    rfl
  | .member base name, target, h => by
    obtain ⟨inner, place, rfl⟩ := Option.map_eq_some_iff.1 h
    simp [Place.expr, ← expr_of_place? place, Accessor.after]
  | .index base key, target, h => by
    obtain ⟨inner, place, rfl⟩ := Option.map_eq_some_iff.1 h
    simp [Place.expr, ← expr_of_place? place, Accessor.after]

/-! ## Growing programs -/

theorem nodup_append_new {names : List String} {name : String} (h : names.Nodup)
    (fresh : name ∉ names) : (names ++ [name]).Nodup := by
  refine List.nodup_append.2 ⟨h, by simp, fun other mem last new same => ?_⟩
  cases List.mem_singleton.1 new
  exact fresh (same ▸ mem)

namespace Program

variable {p : Program}

theorem WellFormed.empty : ({} : Program).WellFormed where
  functions := by simp
  globals := by simp
  apart := by simp
  distinct := List.nodup_nil

theorem WellFormed.insert (h : p.WellFormed) {f : Function} (formed : f.wellFormed = true)
    (fresh : p.declares f.name = false) :
    { p with functions := p.functions.insert f.name f : Program }.WellFormed where
  functions := by
    intro name g found
    rw [Std.ExtTreeMap.getElem?_insert] at found
    split at found
    · next same =>
      cases found
      exact ⟨Std.compare_eq_iff_eq.1 same, formed⟩
    · exact h.functions found
  globals := h.globals
  apart := by
    intro b mem
    rw [Std.ExtTreeMap.mem_insert, not_or]
    refine ⟨fun same => ?_, h.apart b mem⟩
    exact (declares_eq_false.1 fresh).2 b mem (Std.compare_eq_iff_eq.1 same).symm
  distinct := h.distinct

theorem WellFormed.append (h : p.WellFormed) {b : Binding} (formed : b.wellFormed = true)
    (fresh : p.declares b.name = false) :
    { p with globals := p.globals ++ [b] : Program }.WellFormed where
  functions := h.functions
  globals := by
    intro c mem
    rcases List.mem_append.1 mem with old | new
    · exact h.globals c old
    · cases List.mem_singleton.1 new
      exact formed
  apart := by
    intro c mem
    rcases List.mem_append.1 mem with old | new
    · exact h.apart c old
    · cases List.mem_singleton.1 new
      exact (declares_eq_false.1 fresh).1
  distinct := by
    have others : b.name ∉ p.globals.map Binding.name := by
      simpa using (declares_eq_false.1 fresh).2
    rw [List.map_append]
    exact nodup_append_new h.distinct others

end Program

namespace Parser

variable {α β : Type} {P : Position → Prop} {Q : α → Prop} {R : β → Prop} {x : Parse α}

/-- Legal tokens at places that `P` holds of. -/
structure Sound (P : Position → Prop) (input : Input) : Prop where
  placed : ∀ p ∈ input.placed, p.token.legal = true ∧ P p.position
  finish : P input.finish

/-- From sound input `x` reads what `Q` holds of and leaves sound input, or finds fault at a
place that `P` holds of. -/
def Yields (P : Position → Prop) (Q : α → Prop) (x : Parse α) : Prop :=
  ∀ ⦃input : Input⦄, Sound P input →
    match x input with
    | .ok (a, rest) => Q a ∧ Sound P rest
    | .error e => P e.position

/-- `x` reads well-formed expressions. -/
abbrev YieldsExpr (P : Position → Prop) (x : Parse Expr) : Prop :=
  Yields P (fun e => e.wellFormed = true) x

theorem Sound.tail {input : Input} (h : Sound P input) : Sound P input.tail where
  placed := fun p mem => h.placed p (List.mem_of_mem_tail mem)
  finish := h.finish

namespace Yields

theorem pure {a : α} (h : Q a) : Yields P Q (pure a) := fun _ sound => ⟨h, sound⟩

theorem bind {f : α → Parse β} (hx : Yields P Q x) (hf : ∀ a, Q a → Yields P R (f a)) :
    Yields P R (x >>= f) := by
  intro input sound
  have first := hx sound
  cases ran : x input with
  | error e =>
    rw [ran] at first
    have stopped : (x >>= f) input = .error e := by
      change (x input >>= fun p => f p.1 p.2) = _
      rw [ran]
      rfl
    rw [stopped]
    exact first
  | ok p =>
    obtain ⟨a, rest⟩ := p
    rw [ran] at first
    rw [bind_apply ran]
    exact hf a first.1 first.2

theorem throw {e : ParseError} (h : P e.position) : Yields P Q (throw e : Parse α) :=
  fun _ _ => h

theorem position : Yields P P position := by
  intro input sound
  refine ⟨?_, sound⟩
  cases whole : input.placed with
  | nil => exact sound.finish
  | cons p more => exact (sound.placed p (by simp [whole])).2

theorem fault (f : ParseFault) : Yields P Q (fault f : Parse α) :=
  .bind position fun _ place => .throw place

theorem peek : Yields P (fun ahead => ∀ t, ahead = some t → t.legal = true) peek := by
  intro input sound
  refine ⟨fun t next => ?_, sound⟩
  obtain ⟨p, first, rfl⟩ := Option.map_eq_some_iff.1 next
  exact (sound.placed p (List.mem_of_head? first)).1

theorem unexpected (what : Expectation) : Yields P Q (unexpected what : Parse α) :=
  .bind peek fun _ _ => .fault _

theorem advance : Yields P (fun _ => True) advance := fun _ sound => ⟨trivial, sound.tail⟩

theorem turns : Yields P (fun _ => True) turns := fun _ sound => ⟨trivial, sound⟩

theorem ite {b : Bool} {y z : Parse α} (hy : Yields P Q y) (hz : Yields P Q z) :
    Yields P Q (if b then y else z) := by
  cases b
  · exact hz
  · exact hy

theorem at? {t : Token} {y z : Parse α} (hy : Yields P Q y) (hz : Yields P Q z) :
    Yields P Q (do if ← at? t then y else z) := by
  have look : Yields P (fun _ => True) (Parser.at? t) := .bind peek fun _ _ => .pure trivial
  exact .bind look fun _ _ => .ite hy hz

theorem taken (s : Symbol) : Yields P (fun _ => True) (Parser.eat s) :=
  .at? (.bind advance fun _ _ => .pure trivial) (.pure trivial)

theorem eat {s : Symbol} {y z : Parse α} (hy : Yields P Q y) (hz : Yields P Q z) :
    Yields P Q (do if ← eat s then y else z) := .bind (.taken s) fun _ _ => .ite hy hz

theorem expect (s : Symbol) (what : Expectation) : Yields P (fun _ => True) (expect s what) :=
  .eat (.pure trivial) (.unexpected what)

theorem ident (what : Expectation) : Yields P (fun name => isName name = true) (ident what) := by
  refine .bind peek fun ahead legal => ?_
  split
  · exact .bind advance fun _ _ => .pure (legal _ rfl)
  · exact .unexpected what

theorem operator? (ops : List (Symbol × α)) : Yields P (fun _ => True) (operator? ops) := by
  refine .bind peek fun ahead _ => ?_
  split <;> exact .pure trivial

theorem endStatement : Yields P (fun _ => True) endStatement :=
  .bind (.taken _) fun _ _ => .pure trivial

end Yields

/-! ## Expressions -/

section Expressions

variable {expr : Parse Expr} (h : YieldsExpr P expr)

include h

theorem yields_items (close : Symbol) (n : Nat) :
    Yields P (fun items => Expr.itemsWellFormed items = true) (items expr close n) := by
  induction n with
  | zero => exact .unexpected _
  | succ n ih =>
    refine .eat (.pure rfl) <| .bind h fun item formed => .eat ?_ ?_
    · refine .bind ih fun more formed' => .pure ?_
      simp [Expr.itemsWellFormed, formed, formed']
    · refine .bind (.expect ..) fun _ _ => .pure ?_
      simp [Expr.itemsWellFormed, formed]

theorem yields_entries (n : Nat) :
    Yields P (fun entries => Expr.entriesWellFormed entries = true) (entries expr n) := by
  induction n with
  | zero => exact .unexpected _
  | succ n ih =>
    have further : ∀ key : String, Yields P (fun entries => Expr.entriesWellFormed entries = true)
        (do
          expect .colon
          let value ← expr
          if ← eat .comma then return (key, value) :: (← entries expr n)
          expect .rightBrace .commaOrBrace
          return [(key, value)]) := by
      refine fun key => .bind (.expect ..) fun _ _ => .bind h fun value formed => .eat ?_ ?_
      · refine .bind ih fun more formed' => .pure ?_
        simp [Expr.entriesWellFormed, formed, formed']
      · refine .bind (.expect ..) fun _ _ => .pure ?_
        simp [Expr.entriesWellFormed, formed]
    refine .eat (.pure rfl) <| .bind .peek fun ahead _ => .bind .advance fun _ _ => ?_
    split
    · exact further _
    · exact further _
    · exact .bind (Q := fun _ => True) (.fault _) fun key _ => further key

theorem yields_primary : YieldsExpr P (primary expr) := by
  refine .bind .peek fun ahead legal => ?_
  have leaf : ∀ e : Expr, e.wellFormed = true → YieldsExpr P
      (advance >>= fun _ => Pure.pure e) := fun _ formed => .bind .advance fun _ _ => .pure formed
  cases ahead with
  | none => exact .unexpected _
  | some t =>
    cases t with
    | ident name => exact leaf _ (legal _ rfl)
    | int n => exact leaf _ (legal _ rfl)
    | str s => exact leaf _ rfl
    | keyword kw =>
      cases kw with
      | trueValue => exact leaf _ rfl
      | falseValue => exact leaf _ rfl
      | nullValue => exact leaf _ rfl
      | _ => exact .unexpected _
    | symbol s =>
      cases s with
      | leftParen =>
        exact .bind .advance fun _ _ => .bind h fun inner formed =>
          .bind (.expect _ _) fun _ _ => .pure formed
      | leftBracket =>
        exact .bind .advance fun _ _ => .bind .turns fun n _ =>
          .bind (yields_items h _ n) fun items formed => .pure formed
      | leftBrace =>
        exact .bind .advance fun _ _ => .bind .turns fun n _ =>
          .bind (yields_entries h n) fun entries formed => .pure formed
      | _ => exact .unexpected _

theorem yields_accesses (n : Nat) {base : Expr} (formed : base.wellFormed = true) :
    YieldsExpr P (accesses expr n base) := by
  induction n generalizing base with
  | zero => exact .pure formed
  | succ n ih =>
    refine .eat (.bind (.ident _) fun name named => ih ?_) <|
      .eat (.bind h fun key formed' => .bind (.expect ..) fun _ _ => ih ?_) <|
        .at? ?_ (.pure formed)
    · simp [Expr.wellFormed, formed, named]
    · simp [Expr.wellFormed, formed, formed']
    · split
      · next name =>
        refine .bind .advance fun _ _ => .bind .turns fun n _ =>
          .bind (yields_items h _ n) fun args formed' => ih ?_
        unfold Expr.wellFormed at formed ⊢
        simp [formed, formed']
      · exact .fault _

end Expressions

theorem yields_level {ops : List (Symbol × α)} {join : α → Expr → Expr → Expr}
    (joins : ∀ op left right, left.wellFormed = true → right.wellFormed = true →
      (join op left right).wellFormed = true) {operand : Parse Expr}
    (h : YieldsExpr P operand) : YieldsExpr P (level ops join operand) := by
  have further : ∀ n left, left.wellFormed = true →
      YieldsExpr P (joined ops join operand n left) := by
    intro n
    induction n with
    | zero => exact fun left formed => .pure formed
    | succ n ih =>
      refine fun left formed => .bind (.operator? ops) fun op? _ => ?_
      split
      · next op =>
        exact .bind .advance fun _ _ => .bind h fun right formed' =>
          ih _ (joins op left right formed formed')
      · exact .pure formed
  exact .bind h fun left formed => .bind .turns fun n _ => further n left formed

theorem yields_operators {unary : Parse Expr} (h : YieldsExpr P unary) :
    YieldsExpr P (operators unary) := by
  have binary : ∀ op left right, left.wellFormed = true → right.wellFormed = true →
      (Expr.binary op left right).wellFormed = true := fun op left right formed formed' => by
    simp [Expr.wellFormed, formed, formed']
  have logical : ∀ op left right, left.wellFormed = true → right.wellFormed = true →
      (Expr.logical op left right).wellFormed = true := fun op left right formed formed' => by
    simp [Expr.wellFormed, formed, formed']
  exact yields_level logical <| yields_level logical <| yields_level binary <|
    yields_level binary <| yields_level binary <| yields_level binary h

theorem yields_unaryWith {deeper expr : Parse Expr} (hd : YieldsExpr P deeper)
    (h : YieldsExpr P expr) : YieldsExpr P (unaryWith deeper expr) :=
  .eat (.bind hd fun operand formed => .pure (by simpa [Expr.wellFormed] using formed)) <|
    .eat (.bind hd fun operand formed => .pure (by simpa [Expr.wellFormed] using formed)) <|
      .bind (yields_primary h) fun base formed => .bind .turns fun n _ =>
        yields_accesses h n formed

theorem yields_unary (limit room : Nat) : YieldsExpr P (unary limit room) := by
  induction room with
  | zero => exact yields_unaryWith (.fault _) (.fault _)
  | succ room ih => exact yields_unaryWith ih (yields_operators ih)

theorem yields_expr (limit room : Nat) : YieldsExpr P (expr limit room) := by
  cases room with
  | zero => exact .fault _
  | succ room => exact yields_operators (yields_unary limit room)

/-! ## Statements -/

theorem yields_binding (scope : Scope) (constant : Bool) :
    Yields P (fun b => b.wellFormed = true) (binding scope constant) := by
  refine .bind .advance fun _ _ => .bind (.ident _) fun name named => .eat ?_ ?_
  · refine .bind (yields_expr ..) fun init formed => .bind .endStatement fun _ _ => .pure ?_
    simp [Binding.wellFormed, named, formed]
  · split
    · exact .fault _
    · next mutable =>
      refine .bind .endStatement fun _ _ => .pure ?_
      simp [Binding.wellFormed, named, mutable]

theorem yields_enter (scope : Scope) :
    Yields P (fun inner => inner.inLoop = scope.inLoop) scope.enter := by
  unfold Scope.enter
  split
  · exact .fault _
  · exact .pure rfl

theorem yields_condition (scope : Scope) :
    Yields P (fun test => test.wellFormed = true) (condition scope) :=
  .bind .advance fun _ _ => .bind (.expect ..) fun _ _ => .bind (yields_expr ..) fun _ formed =>
    .bind (.expect ..) fun _ _ => .pure formed

theorem yields_statements {statement : Parse Stmt} {inLoop : Bool}
    (h : Yields P (fun stmt => stmt.wellFormed inLoop = true) statement) (n : Nat) :
    Yields P (fun body => Stmt.bodyWellFormed inLoop body = true) (statements statement n) := by
  induction n with
  | zero => exact .unexpected _
  | succ n ih =>
    refine .bind .peek fun ahead _ => ?_
    split
    · exact .bind .advance fun _ _ => .pure rfl
    · exact .unexpected _
    · refine .bind h fun first formed => .bind ih fun more formed' => .pure ?_
      simp [Stmt.bodyWellFormed, formed, formed']

theorem yields_expressionStatement (scope : Scope) :
    Yields P (fun stmt => stmt.wellFormed scope.inLoop = true) (expressionStatement scope) := by
  refine .bind .position fun start place => .bind (yields_expr ..) fun left formed =>
    .bind (.operator? _) fun op? _ => ?_
  split
  · refine .bind .advance fun _ _ => ?_
    split
    · exact .throw place
    · next target named =>
      refine .bind (yields_expr ..) fun value formed' => .bind .endStatement fun _ _ => .pure ?_
      simp [Stmt.wellFormed, Expr.expr_of_place? named, formed, formed']
  · refine .bind .endStatement fun _ _ => .pure ?_
    simpa [Stmt.wellFormed] using formed

section Inside

variable {statement : Scope → Parse Stmt}
  (h : ∀ scope, Yields P (fun stmt => stmt.wellFormed scope.inLoop = true) (statement scope))

include h

theorem yields_block (scope : Scope) :
    Yields P (fun body => Stmt.bodyWellFormed scope.inLoop body = true)
      (block statement scope) := by
  refine .bind (.expect ..) fun _ _ => .bind (yields_enter scope) fun inner same =>
    .bind .turns fun n _ => ?_
  rw [← same]
  exact yields_statements (h inner) n

theorem yields_body (scope : Scope) :
    Yields P (fun body => Stmt.bodyWellFormed scope.inLoop body = true) (body statement scope) := by
  refine .at? (yields_block h scope) <| .bind (h scope) fun stmt formed => .pure ?_
  simp [Stmt.bodyWellFormed, formed]

theorem yields_branch (scope : Scope) :
    Yields P (fun stmt => stmt.wellFormed scope.inLoop = true) (branch statement scope) := by
  refine .bind (yields_condition scope) fun test formed => .bind (yields_body h scope)
    fun yes formedYes => .at? (.bind .advance fun _ _ => .at? ?_ ?_) (.pure ?_)
  · refine .bind (yields_enter scope) fun inner same => .bind (h inner) fun no formedNo => .pure ?_
    rw [same] at formedNo
    simp [Stmt.wellFormed, Stmt.bodyWellFormed, formed, formedYes, formedNo]
  · refine .bind (yields_body h scope) fun no formedNo => .pure ?_
    simp [Stmt.wellFormed, formed, formedYes, formedNo]
  · simp [Stmt.wellFormed, Stmt.bodyWellFormed, formed, formedYes]

theorem yields_statementWith (scope : Scope) :
    Yields P (fun stmt => stmt.wellFormed scope.inLoop = true) (statementWith statement scope) := by
  refine .bind .peek fun ahead _ => ?_
  split
  · exact .bind (yields_binding scope false) fun b formed => .pure formed
  · exact .bind (yields_binding scope true) fun b formed => .pure formed
  · exact yields_branch h scope
  · refine .bind (yields_condition scope) fun test formed =>
      .bind (yields_body h { scope with inLoop := true }) fun body formed' => .pure ?_
    simp [Stmt.wellFormed, formed, formed']
  · split
    · next inside => exact .bind .advance fun _ _ => .bind .endStatement fun _ _ => .pure inside
    · exact .fault _
  · split
    · next inside => exact .bind .advance fun _ _ => .bind .endStatement fun _ _ => .pure inside
    · exact .fault _
  · refine .bind .advance fun _ _ => .bind .peek fun ahead _ => ?_
    split
    · exact .bind .endStatement fun _ _ => .pure rfl
    · exact .pure rfl
    · exact .bind (yields_expr ..) fun value formed => .bind .endStatement fun _ _ => .pure formed
  · exact .bind .advance fun _ _ => .bind (yields_expr ..) fun value formed =>
      .bind .endStatement fun _ _ => .pure formed
  · exact .fault _
  · exact .bind (yields_block h scope) fun body formed => .pure formed
  · exact .bind .advance fun _ _ => .pure rfl
  · exact yields_expressionStatement scope

end Inside

theorem yields_statement (size : Nat) (scope : Scope) :
    Yields P (fun stmt => stmt.wellFormed scope.inLoop = true) (statement size scope) := by
  induction size generalizing scope with
  | zero => exact .unexpected _
  | succ size ih => exact yields_statementWith ih scope

/-! ## Declarations -/

theorem yields_params {seen : List String} (named : seen.all isName = true) (apart : seen.Nodup)
    (n : Nat) :
    Yields P (fun names => names.all isName = true ∧ names.Nodup) (params seen n) := by
  induction n generalizing seen with
  | zero => exact .unexpected _
  | succ n ih =>
    refine .bind (.ident _) fun name named' => ?_
    split
    · exact .fault _
    · next fresh =>
      have all : (seen ++ [name]).all isName = true := by simp [named, named']
      have distinct : (seen ++ [name]).Nodup := nodup_append_new apart fresh
      exact .eat (ih all distinct) (.pure ⟨all, distinct⟩)

theorem yields_function {scope : Scope} (outside : scope.inLoop = false) :
    Yields P (fun f => f.wellFormed = true) (function scope) := by
  have further : ∀ (name : String) (names : List String), isName name = true →
      names.all isName = true ∧ names.Nodup → Yields P (fun f : Function => f.wellFormed = true) (do
        expect .rightParen
        let body ← block (statement (← turns)) scope
        return ⟨name, names, body⟩) := by
    refine fun name names named ⟨all, distinct⟩ => .bind (.expect ..) fun _ _ =>
      .bind .turns fun n _ => .bind (yields_block (yields_statement n) scope)
        fun body formed => .pure ?_
    rw [outside] at formed
    simp only [Function.wellFormed, named, all, distinct, formed, decide_true, Bool.and_self]
  refine .bind .advance fun _ _ => .bind (.ident _) fun name named =>
    .bind (.expect ..) fun _ _ => .at? ?_ ?_
  · exact further name [] named ⟨rfl, .nil⟩
  · exact .bind .turns fun n _ => .bind (yields_params rfl .nil n) fun names =>
      further name names named

theorem yields_addFunction {p : Program} (formed : p.WellFormed) {start : Position}
    (place : P start) {f : Function} (formed' : f.wellFormed = true) :
    Yields P Program.WellFormed (addFunction p start f) := by
  unfold addFunction
  split
  · exact .throw place
  · next fresh => exact .pure (formed.insert formed' (Bool.eq_false_iff.2 fresh))

theorem yields_addGlobal {p : Program} (formed : p.WellFormed) {start : Position}
    (place : P start) {b : Binding} (formed' : b.wellFormed = true) :
    Yields P Program.WellFormed (addGlobal p start b) := by
  unfold addGlobal
  split
  · exact .throw place
  · next fresh => exact .pure (formed.append formed' (Bool.eq_false_iff.2 fresh))

theorem yields_declarations {scope : Scope} (outside : scope.inLoop = false) (n : Nat)
    {p : Program} (formed : p.WellFormed) :
    Yields P Program.WellFormed (declarations scope n p) := by
  induction n generalizing p with
  | zero => exact .pure formed
  | succ n ih =>
    refine .bind .position fun start place => .bind .peek fun ahead _ => ?_
    split
    · exact .pure formed
    · exact .bind .advance fun _ _ => ih formed
    · exact .bind (yields_function outside) fun f formed' =>
        .bind (yields_addFunction formed place formed') fun next formed => ih formed
    · exact .bind (yields_binding scope false) fun b formed' =>
        .bind (yields_addGlobal formed place formed') fun next formed => ih formed
    · exact .bind (yields_binding scope true) fun b formed' =>
        .bind (yields_addGlobal formed place formed') fun next formed => ih formed
    · exact .fault _

end Parser

end LedgerScript.Script
