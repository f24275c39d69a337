import LedgerScript.Proofs.Script.Expressions

/-!
# Reading statements back

A well-formed statement that is written out is read back (`Stmt.Legible`), as long
as no `else` follows.  Main statement: `Stmt.legible`.
-/

namespace LedgerScript.Script

/-! ## Places -/

theorem Expr.place?_after {base : Expr} {target : Place} (h : base.place? = some target)
    (path : List Accessor) :
    (path.foldl Accessor.after base).place? = some { target with path := target.path ++ path } := by
  induction path generalizing base target with
  | nil => rw [List.append_nil]; exact h
  | cons access path ih =>
    have next : (access.after base).place? =
        some { target with path := target.path ++ [access] } := by
      cases access with
      | member name => rw [Accessor.after, Expr.place?, h]; rfl
      | index key => rw [Accessor.after, Expr.place?, h]; rfl
    rw [List.foldl_cons, ih next, List.append_assoc]
    rfl

/-- `target.expr` names the place `target`. -/
theorem Place.place?_expr (target : Place) : target.expr.place? = some target := by
  have root : (Expr.ident target.root).place? = some ⟨target.root, []⟩ := by rw [Expr.place?]
  exact Expr.place?_after root target.path

theorem Place.head?_expr (style : Style) (target : Place) :
    (target.expr.tokens style).head? = some (.ident target.root) := by
  have along : ∀ path : List Accessor, ∀ base : Expr, base.rank = 0 →
      (base.tokens style).head? = some (.ident target.root) →
      ((path.foldl Accessor.after base).tokens style).head? = some (.ident target.root) := by
    intro path
    induction path with
    | nil => exact fun _ _ h => h
    | cons access path ih =>
      intro base tight first
      have further (more : List Token) :
          (base.fitted 0 (base.tokens style) ++ more).head? = some (.ident target.root) := by
        rw [Expr.fitted_of_le (Nat.le_of_eq tight), List.head?_append, first]
        rfl
      refine ih (access.after base) ?_ ?_
      · cases access <;> rfl
      · cases access with
        | member name => rw [Accessor.after, Expr.tokens]; exact further _
        | index key => rw [Accessor.after, Expr.tokens]; exact further _
  exact along target.path (.ident target.root) rfl rfl

namespace Parser

variable {α : Type} {scope : Scope} {ts rest : List Token} {style : Style}

/-! ## Ends of statements -/

theorem reads_endStatement : Reads endStatement [.symbol .semicolon] () rest :=
  .last <| .at? rfl <| .advance <| .refl _ _

/-- An expression with a semicolon behind it. -/
theorem leads_ended {e : Expr} {f : Expr → Parse α}
    (fits : (e.tokens style).length < scope.room) :
    Leads (do let e ← scope.expr; endStatement; f e) (e.tokens style ++ [.symbol .semicolon]) rest
      (f e) := by
  have read : Reads scope.expr (e.tokens style) e ([.symbol .semicolon] ++ rest) :=
    e.reads style fits (stops_symbol rfl _ _)
  exact .bind read <| .last reads_endStatement

theorem reads_binding {b : Binding} (valid : b.wellFormed = true)
    (fits : (b.tokens style).length ≤ scope.room) :
    Reads (binding scope b.constant) (b.tokens style) b rest := by
  obtain ⟨name, init, constant⟩ := b
  cases init with
  | none =>
    cases constant with
    | true =>
      rw [Binding.wellFormed, Bool.and_eq_true] at valid
      cases valid.2
    | false => exact .advance <| .ident <| .skip_cons nofun <| .last reads_endStatement
  | some e =>
    simp only [Binding.tokens, List.length_cons, List.length_append] at fits
    exact .advance <| .ident <| .eat <| leads_ended (by omega)

/-! ## Bodies -/

theorem reads_enter {m : Nat} (room : scope.room = m + 1) :
    Reads scope.enter [] { scope with room := m } rest := by
  unfold Scope.enter
  rw [room]
  exact .refl _ _

end Parser

/-- `s.Legible style`: `statement` reads the tokens of a well-formed `s` back, where no
`else` follows. -/
def Stmt.Legible (style : Style) (s : Stmt) : Prop :=
  ∀ ⦃size : Nat⦄ ⦃scope : Parser.Scope⦄ ⦃rest : List Token⦄, s.wellFormed scope.inLoop = true →
    (s.tokens style).length ≤ size → (s.tokens style).length ≤ scope.room →
    rest.head? ≠ some (.keyword .elseBranch) →
    Parser.Reads (Parser.statement size scope) (s.tokens style) s rest

/-! ## Where a statement begins -/

/-- `t.begins`: a statement may begin with `t`. -/
def Token.begins : Token → Bool
  | symbol .rightBrace | keyword .elseBranch => false
  | _ => true

/-- The tokens begin like a statement. -/
abbrev Begins (tokens : List Token) : Prop := StartsIn Token.begins tokens

theorem Opens.begins {tokens : List Token} (h : Opens tokens) : Begins tokens := by
  obtain ⟨t, ts, whole, opens⟩ := h
  refine ⟨t, ts, whole, ?_⟩
  revert opens
  cases t with
  | keyword kw => cases kw <;> decide
  | symbol s => cases s <;> decide
  | _ => exact fun _ => rfl

theorem Expr.opens_standing (style : Style) (e : Expr) : Opens (e.standing style) := by
  unfold standing
  split
  · exact opens_parens _
  · exact e.opens style

theorem Stmt.begins (style : Style) (s : Stmt) : Begins (s.tokens style) := by
  cases s with
  | declare b =>
    refine ⟨_, _, rfl, ?_⟩
    cases b.constant <;> rfl
  | assign target op value => exact (target.expr.opens style).begins.append _
  | evaluate value => exact (value.opens_standing style).begins.append _
  | result value => cases value <;> exact ⟨_, _, rfl, rfl⟩
  | _ => exact ⟨_, _, rfl, rfl⟩

namespace Parser

variable {size : Nat} {scope : Scope} {rest ts : List Token} {style : Style} {body : List Stmt}

/-! ## Bodies -/

/-- `statements` reads the next statement of a block. -/
theorem leads_statements {statement : Parse Stmt} {n : Nat} {y : Parse (List Stmt)}
    (begins : Begins ts)
    (h : Leads (do let first ← statement; return first :: (← statements statement n)) ts rest y) :
    Leads (statements statement (n + 1)) ts rest y := by
  obtain ⟨t, ts, rfl, begins⟩ := begins
  refine .peek ?_
  cases t with
  | symbol s => cases s with
    | rightBrace => cases begins
    | _ => exact h
  | _ => exact h

theorem reads_statements {n : Nat} (h : ∀ s ∈ body, s.Legible style)
    (valid : Stmt.bodyWellFormed scope.inLoop body = true)
    (small : (Stmt.tokensOfBody style body).length ≤ size)
    (fits : (Stmt.tokensOfBody style body).length ≤ scope.room)
    (enough : (Stmt.tokensOfBody style body).length < n) :
    Reads (statements (statement size scope) n)
      (Stmt.tokensOfBody style body ++ [.symbol .rightBrace]) body rest := by
  induction body generalizing n with
  | nil =>
    obtain ⟨m, rfl⟩ := Nat.exists_eq_succ_of_ne_zero (Nat.ne_of_gt enough)
    exact .peek <| .advance <| .refl _ _
  | cons s body ih =>
    obtain ⟨m, rfl⟩ := Nat.exists_eq_succ_of_ne_zero (Nat.ne_zero_of_lt enough)
    obtain ⟨first, others⟩ := List.forall_mem_cons.1 h
    obtain ⟨valid, valid'⟩ := (Bool.and_eq_true _ _).mp valid
    rw [Stmt.tokensOfBody, List.length_append] at small fits enough
    rw [Stmt.tokensOfBody, List.append_assoc]
    have nonempty := (s.begins style).length_pos
    -- no statement begins with `else`, so none takes up a branch before it
    have apart : (Stmt.tokensOfBody style body ++ [Token.symbol .rightBrace] ++ rest).head? ≠
        some (.keyword .elseBranch) := by
      cases body with
      | nil => rintro ⟨⟩
      | cons s' body =>
        rw [Stmt.tokensOfBody]
        exact ((((s'.begins style).append _).append _).append _).head?_ne rfl
    exact leads_statements ((s.begins style).append _) <|
      .bind (first valid (by omega) (by omega) apart) <|
      .last (ih others valid' (by omega) (by omega) (by omega))

theorem reads_block (h : ∀ s ∈ body, s.Legible style)
    (valid : Stmt.bodyWellFormed scope.inLoop body = true)
    (small : (Stmt.tokensOfBody style body).length ≤ size)
    (fits : (Stmt.tokensOfBody style body).length < scope.room) :
    Reads (block (statement size) scope) (braces (Stmt.tokensOfBody style body)) body rest := by
  obtain ⟨m, room⟩ := Nat.exists_eq_succ_of_ne_zero (Nat.ne_zero_of_lt fits)
  have inside {n : Nat} (enough : (Stmt.tokensOfBody style body).length < n) :
      Reads (statements (statement size { scope with room := m }) n)
        (Stmt.tokensOfBody style body ++ [.symbol .rightBrace]) body rest :=
    reads_statements h valid small (show _ ≤ m by omega) enough
  refine .expect <| .first (reads_enter room) <| .turns fun n enough => inside ?_
  rw [List.length_append, List.length_append] at enough
  omega

theorem reads_body (h : ∀ s ∈ body, s.Legible style)
    (valid : Stmt.bodyWellFormed scope.inLoop body = true)
    (small : (Stmt.tokensOfBody style body).length ≤ size)
    (fits : (Stmt.tokensOfBody style body).length < scope.room) :
    Reads (Parser.body (statement size) scope) (braces (Stmt.tokensOfBody style body)) body rest :=
  .at? rfl <| reads_block h valid small fits

theorem reads_condition {test : Expr} {t : Token}
    (fits : (test.tokens style).length < scope.room) :
    Reads (condition scope) (t :: parens (test.tokens style)) test rest := by
  have read : Reads scope.expr (test.tokens style) test ([.symbol .rightParen] ++ rest) :=
    test.reads style fits (stops_symbol rfl _ _)
  exact .advance <| .expect <| .bind read <| .expect <| .refl _ _

end Parser

namespace Stmt

open LedgerScript.Script.Parser (Reads Leads)

variable {style : Style} {s : Stmt}

/-- `s` is `Legible` if `statementWith` reads it. -/
theorem legible_of_with
    (own : ∀ ⦃size : Nat⦄ ⦃scope : Parser.Scope⦄ ⦃rest : List Token⦄,
      s.wellFormed scope.inLoop = true → (s.tokens style).length ≤ size + 1 →
      (s.tokens style).length ≤ scope.room → rest.head? ≠ some (.keyword .elseBranch) →
      Reads (Parser.statementWith (Parser.statement size) scope) (s.tokens style) s rest) :
    s.Legible style := by
  intro size scope rest valid small
  have positive := Nat.lt_of_lt_of_le (s.begins style).length_pos small
  obtain ⟨m, rfl⟩ := Nat.exists_eq_succ_of_ne_zero (Nat.ne_of_gt positive)
  exact own valid small

theorem legible_declare (b : Binding) : (declare b).Legible style := by
  refine legible_of_with fun size scope rest valid _ fits _ => ?_
  have read : Reads (Parser.binding scope b.constant) (b.tokens style) b rest :=
    Parser.reads_binding valid fits
  obtain ⟨name, init, constant⟩ := b
  cases constant with
  | true => exact .peek <| .last read
  | false => exact .peek <| .last read

theorem legible_leave : leave.Legible style := by
  refine legible_of_with fun size scope rest valid _ _ _ => .peek ?_
  have inside : scope.inLoop = true := valid
  change Leads (if scope.inLoop = true then _ else _) _ _ _
  rw [if_pos inside]
  exact .advance <| .last Parser.reads_endStatement

theorem legible_again : again.Legible style := by
  refine legible_of_with fun size scope rest valid _ _ _ => .peek ?_
  have inside : scope.inLoop = true := valid
  change Leads (if scope.inLoop = true then _ else _) _ _ _
  rw [if_pos inside]
  exact .advance <| .last Parser.reads_endStatement

theorem legible_result (value : Option Expr) : (result value).Legible style := by
  refine legible_of_with fun size scope rest valid _ fits _ => ?_
  cases value with
  | none => exact .peek <| .advance <| .peek <| .last Parser.reads_endStatement
  | some value =>
    rw [Stmt.tokens] at fits ⊢
    simp only [List.length_append, List.length_cons] at fits
    have read : Leads (do let e ← scope.expr; Parser.endStatement; return result (some e))
        (value.tokens style ++ [.symbol .semicolon]) rest (pure (result (some value))) :=
      Parser.leads_ended (by omega)
    obtain ⟨t, ts, whole, opens⟩ := value.opens style
    rw [whole] at read ⊢
    refine .peek <| .advance <| .peek ?_
    cases t with
    | symbol s => cases s <;> first | exact read | cases opens
    | _ => exact read

theorem legible_fail (value : Expr) : (fail value).Legible style := by
  refine legible_of_with fun size scope rest valid _ fits _ => ?_
  rw [Stmt.tokens] at fits ⊢
  simp only [List.length_append, List.length_cons] at fits
  exact .peek <| .advance <| Parser.leads_ended (by omega)

theorem legible_block {body : List Stmt} (h : ∀ s ∈ body, s.Legible style) :
    (block body).Legible style := by
  refine legible_of_with fun size scope rest valid small fits _ => ?_
  rw [Stmt.tokens] at small fits ⊢
  simp only [braces, List.length_append, List.length_cons] at small fits
  exact .peek <| .last <| Parser.reads_block h valid (by omega) (by omega)

theorem legible_loop {body : List Stmt} (h : ∀ s ∈ body, s.Legible style) (test : Expr) :
    (loop test body).Legible style := by
  refine legible_of_with fun size scope rest valid small fits _ => ?_
  obtain ⟨-, valid⟩ := (Bool.and_eq_true _ _).mp valid
  rw [Stmt.tokens] at small fits ⊢
  simp only [braces, parens, List.length_append, List.length_cons] at small fits
  change Leads _ (.keyword .whileLoop :: parens (test.tokens style) ++ _) _ _
  refine .peek <| .bind (Parser.reads_condition (by omega)) <| .last ?_
  exact Parser.reads_body h valid (by omega) (show _ < scope.room by omega)

/-- What begins like an expression, but with no brace, is read by `expressionStatement`. -/
theorem leads_expressionStatement {statement : Parser.Scope → Parser.Parse Stmt}
    {scope : Parser.Scope} {ts us rest : List Token} {y : Parser.Parse Stmt} (opens : Opens ts)
    (brace : ts.head? ≠ some (.symbol .leftBrace))
    (h : Leads (Parser.expressionStatement scope) (ts ++ us) rest y) :
    Leads (Parser.statementWith statement scope) (ts ++ us) rest y := by
  obtain ⟨t, ts, rfl, opens⟩ := opens
  refine .peek ?_
  cases t with
  | keyword kw => cases kw <;> first | exact h | cases opens
  | symbol s => cases s with
    | leftBrace => exact absurd rfl brace
    | _ => first | exact h | cases opens
  | _ => exact h

theorem legible_assign (target : Place) (op : AssignOp) (value : Expr) :
    (assign target op value).Legible style := by
  refine legible_of_with fun size scope rest _ _ fits _ => ?_
  rw [Stmt.tokens] at fits ⊢
  simp only [List.length_append, List.length_cons] at fits
  have free : op.symbol.joint = none := by cases op <;> rfl
  have found : Parser.assignments.lookup op.symbol = some op := by cases op <;> rfl
  have read : Reads scope.expr (target.expr.tokens style) target.expr
      (.symbol op.symbol :: (value.tokens style ++ [.symbol .semicolon]) ++ rest) :=
    target.expr.reads style (by omega) (stops_symbol free _ _)
  refine leads_expressionStatement (target.expr.opens style) ?_ ?_
  · rw [target.head?_expr style]
    exact nofun
  · refine .position fun _ => .bind read <| .operator found <| .advance ?_
    rw [target.place?_expr]
    exact Parser.leads_ended (by omega)

theorem legible_evaluate (value : Expr) : (evaluate value).Legible style := by
  refine legible_of_with fun size scope rest _ _ fits _ => ?_
  rw [Stmt.tokens, List.length_append, List.length_cons] at fits
  have brace : (value.standing style).head? ≠ some (.symbol .leftBrace) := by
    unfold Expr.standing
    split
    · rintro ⟨⟩
    · next other => exact other
  have read : Reads scope.expr (value.standing style) value ([.symbol .semicolon] ++ rest) := by
    unfold Expr.standing at fits ⊢
    split at fits
    · next curly =>
      rw [if_pos curly]
      exact value.reads_parens style (by omega) (stops_symbol rfl _ _)
    · next curly =>
      rw [if_neg curly]
      exact value.reads style (by omega) (stops_symbol rfl _ _)
  refine leads_expressionStatement (value.opens_standing style) brace ?_
  refine .position fun _ => .bind read <| .no_operator ?_ <| .last Parser.reads_endStatement
  rintro s ⟨⟩
  rfl

/-- What stands behind the first body of a branch. -/
theorem reads_else {no : List Stmt} {size : Nat} {scope : Parser.Scope} {rest : List Token}
    (h : ∀ s ∈ no, s.Legible style) (valid : bodyWellFormed scope.inLoop no = true)
    (small : (tokensOfElse style no).length ≤ size)
    (fits : (tokensOfElse style no).length ≤ scope.room)
    (last : rest.head? ≠ some (.keyword .elseBranch)) (test : Expr) (yes : List Stmt) :
    Reads (do
      if ← Parser.at? (.keyword .elseBranch) then
        Parser.advance
        if ← Parser.at? (.keyword .ifBranch) then
          let inner ← scope.enter
          return branch test yes [← Parser.statement size inner]
        else
          return branch test yes (← Parser.body (Parser.statement size) scope)
      else return branch test yes []) (tokensOfElse style no) (branch test yes no) rest := by
  cases no with
  | nil => exact .not_at? last <| .refl _ _
  | cons s more =>
    rw [tokensOfElse] at small fits ⊢
    split at small
    · next single =>
      rw [if_pos single] at fits ⊢
      simp only [Bool.and_eq_true, List.isEmpty_iff] at single
      obtain ⟨⟨-, joined⟩, rfl⟩ := single
      rw [List.length_cons] at small fits
      obtain ⟨m, room⟩ := Nat.exists_eq_succ_of_ne_zero (Nat.ne_zero_of_lt fits)
      obtain ⟨valid, -⟩ := (Bool.and_eq_true _ _).mp valid
      have inner : Reads (Parser.statement size { scope with room := m }) (s.tokens style) s rest :=
        h s (List.mem_singleton_self s) valid (by omega) (show _ ≤ m by omega) last
      refine .at? rfl <| .advance <| .at? ?_ <| .first (Parser.reads_enter room) <| .last inner
      cases s with
      | branch => rfl
      | _ => cases joined
    · next several =>
      rw [if_neg several] at fits ⊢
      simp only [braces, List.length_append, List.length_cons] at small fits
      have inner : Reads (Parser.body (Parser.statement size) scope)
          (braces (tokensOfBody style (s :: more))) (s :: more) rest := by
        refine Parser.reads_body h valid ?_ ?_
        · rw [tokensOfBody, List.length_append]
          omega
        · rw [tokensOfBody, List.length_append]
          omega
      exact .at? rfl <| .advance <| .not_at? (by rintro ⟨⟩) <| .last inner

theorem legible_branch {yes no : List Stmt} (h : ∀ s ∈ yes, s.Legible style)
    (h' : ∀ s ∈ no, s.Legible style) (test : Expr) : (branch test yes no).Legible style := by
  refine legible_of_with fun size scope rest valid small fits last => ?_
  obtain ⟨valid, others⟩ := (Bool.and_eq_true _ _).mp valid
  obtain ⟨-, valid⟩ := (Bool.and_eq_true _ _).mp valid
  rw [Stmt.tokens] at small fits ⊢
  simp only [braces, parens, List.length_append, List.length_cons] at small fits
  change Leads _ (.keyword .ifBranch :: parens (test.tokens style) ++ _) _ _
  exact .peek <| .bind (Parser.reads_condition (by omega)) <|
    .bind (Parser.reads_body h valid (by omega) (by omega)) <|
    reads_else h' others (by omega) (by omega) last test yes

mutual

/-- **Statements are read back.**  Every statement is `Legible` in every style. -/
theorem legible (style : Style) : ∀ s : Stmt, s.Legible style
  | .declare b => legible_declare b
  | .assign target op value => legible_assign target op value
  | .branch test yes no => legible_branch (legible_body style yes) (legible_body style no) test
  | .loop test body => legible_loop (legible_body style body) test
  | .block body => legible_block (legible_body style body)
  | .leave => legible_leave
  | .again => legible_again
  | .result value => legible_result value
  | .fail value => legible_fail value
  | .evaluate value => legible_evaluate value

theorem legible_body (style : Style) : ∀ body : List Stmt, ∀ s ∈ body, s.Legible style
  | [] => nofun
  | s :: body => List.forall_mem_cons.2 ⟨legible style s, legible_body style body⟩

end

end Stmt

end LedgerScript.Script
