import LedgerScript.Proofs.Script.Parentheses
import LedgerScript.Proofs.Sequence

/-!
# How deep statements nest

The parser counts blocks and what follows `else if`, but not the statement that is
the whole body of an `if`, `else` or `while`.  So the statements of a program nest
as deep as was asked for, and deeper by one for every body that stands without
braces (`chain_le_of_parse`); a short source can nest deeper than it may
(`BracelessLoops.chain_gt`).
-/

namespace LedgerScript.Script

/-! ## Chains of statements -/

mutual

/-- The length of the longest chain of statements that begins with this one, each
lying directly inside the one before. -/
def Stmt.chain : Stmt → Nat
  | .branch _ yes no => 1 + max (chainOfBody yes) (chainOfBody no)
  | .loop _ body => 1 + chainOfBody body
  | .block body => 1 + chainOfBody body
  | _ => 1

def Stmt.chainOfBody : List Stmt → Nat
  | [] => 0
  | stmt :: rest => max stmt.chain (chainOfBody rest)

end

/-! ## Bodies without braces -/

/-- Where the body begins that belongs to a reserved word, if it has one; the branch
behind `else if` is none. -/
def Token.body? (t : Token) (rest : List Token) : Option (List Token) :=
  match t with
  | .keyword .ifBranch | .keyword .whileLoop => some (behind 1 rest.tail)
  | .keyword .elseBranch => if rest.head? = some (.keyword .ifBranch) then none else some rest
  | _ => none

/-- `bare body` is 1 for a body that does not begin with a brace. -/
def bare (body : List Token) : Nat := if body.head? = some (.symbol .leftBrace) then 0 else 1

/-- The number of bodies that stand without braces. -/
def unbraced : List Token → Nat
  | [] => 0
  | t :: rest => ((t.body? rest).map bare).getD 0 + unbraced rest

/-- The number of bodies of a source that stand without braces; 0 if `tokenize` refuses
it. -/
def unbracedIn (source : String) : Nat :=
  match tokenize source with
  | .ok tokens => unbraced tokens.list
  | .error _ => 0

theorem unbraced_tail_le (tokens : List Token) : unbraced tokens.tail ≤ unbraced tokens := by
  cases tokens with
  | nil => exact Nat.le_refl _
  | cons t rest => exact Nat.le_add_left ..

theorem unbraced_le_append (taken rest : List Token) :
    unbraced rest ≤ unbraced (taken ++ rest) := by
  induction taken with
  | nil => exact Nat.le_refl _
  | cons t taken ih => exact Nat.le_trans ih (unbraced_tail_le (t :: (taken ++ rest)))

theorem Spans.unbraced_le {before after : List Token} (h : Spans before after) :
    unbraced after ≤ unbraced before := by
  obtain ⟨taken, -, rfl⟩ := h
  exact unbraced_le_append taken after

/-- `unbraced` finds the body behind a condition by its parentheses. -/
theorem bare_add_unbraced_le {kw : Keyword} {inside body : List Token} (closed : Closed inside)
    (conditional : kw = .ifBranch ∨ kw = .whileLoop) :
    bare body + unbraced body ≤ unbraced (.keyword kw :: .symbol .leftParen ::
      (inside ++ .symbol .rightParen :: body)) := by
  have found : (Token.keyword kw).body? (.symbol .leftParen ::
      (inside ++ .symbol .rightParen :: body)) = some body := by
    have behind_eq : behind 1 (inside ++ .symbol .rightParen :: body) = body :=
      ((closed 0 _).trans (behind_rightParen 0 body)).trans (behind_zero body)
    rcases conditional with rfl | rfl <;> exact congrArg some behind_eq
  have fewer : unbraced body ≤ unbraced (.symbol .leftParen ::
      (inside ++ .symbol .rightParen :: body)) := by
    have whole := unbraced_le_append (.symbol .leftParen :: (inside ++ [.symbol .rightParen])) body
    simpa using whole
  rw [unbraced, found]
  exact Nat.add_le_add_left fewer _

namespace Parser

variable {α β : Type} {x : Parse α} {input rest : Input} {room : Nat} {height : α → Nat}

/-- What `x` reads reaches no higher than the room and the bodies without braces
that were taken for it allow. -/
def Nests (room : Nat) (height : α → Nat) (x : Parse α) : Prop :=
  ∀ ⦃input rest : Input⦄ ⦃a : α⦄, x input = .ok (a, rest) →
    unbraced rest.list ≤ unbraced input.list ∧
      height a + unbraced rest.list ≤ room + unbraced input.list

/-- `Nests` where the next token is known. -/
def NestsAt (ahead : Option Token) (room : Nat) (height : α → Nat) (x : Parse α) : Prop :=
  ∀ ⦃input rest : Input⦄ ⦃a : α⦄, input.list.head? = ahead → x input = .ok (a, rest) →
    unbraced rest.list ≤ unbraced input.list ∧
      height a + unbraced rest.list ≤ room + unbraced input.list

theorem Nests.ahead (hx : Nests room height x) (ahead : Option Token) :
    NestsAt ahead room height x := fun _ _ _ _ ran => hx ran

theorem Nests.peek {f : Option Token → Parse α}
    (h : ∀ ahead, NestsAt ahead room height (f ahead)) : Nests room height (peek >>= f) := by
  intro input rest a ran
  rw [bind_apply (peek_apply input)] at ran
  exact h _ rfl ran

theorem Nests.unexpected (what : Expectation) : Nests room height (unexpected what : Parse α) := by
  intro input rest a ran
  cases ran

theorem Nests.fault (p : ParseFault) : Nests room height (fault p : Parse α) := by
  intro input rest a ran
  cases ran

/-! ### Statements without statements inside -/

/-- `x` reads statements that have no statements inside. -/
def Flat (x : Parse Stmt) : Prop :=
  ∀ ⦃input rest : Input⦄ ⦃stmt : Stmt⦄, x input = .ok (stmt, rest) → stmt.chain = 1

theorem Flat.pure {stmt : Stmt} (h : stmt.chain = 1) : Flat (pure stmt) := by
  intro input rest stmt' ran
  cases ran
  exact h

theorem Flat.bind {f : α → Parse Stmt} (h : ∀ a, Flat (f a)) : Flat (x >>= f) := by
  intro input rest stmt ran
  obtain ⟨a, mid, -, ran⟩ := bind_eq_ok ran
  exact h a ran

/-- A `Flat` statement fits wherever a statement does. -/
theorem nestsAt_flat {ahead : Option Token} {x : Parse Stmt} (closes : ClosesAt ahead x)
    (flat : Flat x) : NestsAt ahead (room + 1) Stmt.chain x := by
  intro input rest stmt next ran
  have fewer := (closes next ran).unbraced_le
  refine ⟨fewer, ?_⟩
  rw [flat ran]
  omega

theorem closes_binding (scope : Scope) (constant : Bool) {t : Token} (plain : t.Plain) :
    ClosesAt (some t) (binding scope constant) := by
  refine .advance plain <| .bind (.ident _) fun name => .eat (by decide)
    (.bind (closes_expr ..) fun _ => .bind .endStatement fun _ => .pure _) ?_
  split
  · exact .fault _
  · exact .bind .endStatement fun _ => .pure _

theorem ClosesAt.bind {ahead : Option Token} {f : α → Parse β} (hx : ClosesAt ahead x)
    (hf : ∀ a, Closes (f a)) : ClosesAt ahead (x >>= f) := by
  intro input rest b next ran
  obtain ⟨a, mid, first, second⟩ := bind_eq_ok ran
  exact (hx next first).trans (hf a second)

theorem nestsAt_declare (scope : Scope) (constant : Bool) {t : Token} (plain : t.Plain) :
    NestsAt (some t) (room + 1) Stmt.chain
      (binding scope constant >>= fun b => pure (.declare b)) :=
  nestsAt_flat ((closes_binding scope constant plain).bind fun _ => .pure _)
    (.bind fun _ => .pure rfl)

theorem nestsAt_result (scope : Scope) :
    NestsAt (some (.keyword .returnValue)) (room + 1) Stmt.chain (do
      advance
      match ← peek with
      | some (.symbol .semicolon) => endStatement; return .result none
      | some (.symbol .rightBrace) => return .result none
      | _ =>
        let value ← scope.expr
        endStatement
        return .result (some value)) := by
  refine nestsAt_flat (.advance (by decide) <| .peek fun ahead => ?_) (.bind fun _ => .bind ?_)
  · split
    · exact (Closes.bind .endStatement fun _ => .pure _).ahead _
    · exact (Closes.pure _).ahead _
    · exact (Closes.bind (closes_expr ..) fun _ => .bind .endStatement fun _ => .pure _).ahead _
  · intro ahead
    split
    · exact .bind fun _ => .pure rfl
    · exact .pure rfl
    · exact .bind fun _ => .bind fun _ => .pure rfl

theorem nests_expressionStatement (scope : Scope) :
    Nests (room + 1) Stmt.chain (expressionStatement scope) := by
  have closes : Closes (expressionStatement scope) := by
    refine .bind .position fun start => .bind (closes_expr ..) fun left =>
      .operator (by decide) (fun _ => rfl) (fun op => ?_) (.bind .endStatement fun _ => .pure _)
    split
    · exact .throw _
    · exact .bind (closes_expr ..) fun value => .bind .endStatement fun _ => .pure _
  have flat : Flat (expressionStatement scope) := by
    refine .bind fun start => .bind fun left => .bind fun op? => ?_
    split
    · refine .bind fun _ => ?_
      split
      · intro input rest stmt ran
        cases ran
      · exact .bind fun value => .bind fun _ => .pure rfl
    · exact .bind fun _ => .pure rfl
  exact fun _ _ _ ran => nestsAt_flat (closes.ahead _) flat rfl ran

/-! ### Statements with statements inside -/

/-- `enter` takes one level of its scope. -/
theorem enter_eq_ok {scope inner : Scope} (h : scope.enter input = .ok (inner, rest)) :
    rest = input ∧ scope.room = inner.room + 1 := by
  obtain ⟨limit, room, inLoop⟩ := scope
  cases room with
  | zero => cases h
  | succ room =>
    cases h
    exact ⟨rfl, rfl⟩

theorem nests_statements {statement : Parse Stmt} (h : Nests room Stmt.chain statement) (n : Nat) :
    Nests room Stmt.chainOfBody (statements statement n) := by
  induction n with
  | zero => exact .unexpected _
  | succ n ih =>
    refine .peek fun ahead => ?_
    split
    · intro input rest body ahead ran
      cases ran
      have fewer := unbraced_tail_le input.list
      rw [← Tokens.list_tail] at fewer
      exact ⟨fewer, Nat.le_trans (Nat.le_of_eq (Nat.zero_add _)) (Nat.le_add_left_of_le fewer)⟩
    · exact (Nests.unexpected _).ahead _
    · intro input rest body _ ran
      obtain ⟨first, mid, read, ran⟩ := bind_eq_ok ran
      obtain ⟨more, last, reads, ran⟩ := bind_eq_ok ran
      cases ran
      have one := h read
      have others := ih reads
      rw [Stmt.chainOfBody]
      omega

/-- Behind what `condition` takes stands the body that its reserved word promises. -/
theorem condition_eq_ok {scope : Scope} {kw : Keyword} {test : Expr}
    (conditional : kw = .ifBranch ∨ kw = .whileLoop) (ahead : input.list.head? = some (.keyword kw))
    (ran : condition scope input = .ok (test, rest)) :
    bare rest.list + unbraced rest.list ≤ unbraced input.list := by
  unfold condition at ran
  rw [bind_apply (advance_apply input)] at ran
  obtain ⟨u, first, opened, ran⟩ := bind_eq_ok ran
  obtain ⟨test', last, read, ran⟩ := bind_eq_ok ran
  obtain ⟨u, behind, closing, ran⟩ := bind_eq_ok ran
  cases ran
  obtain ⟨inside, closed, whole⟩ := closes_expr _ _ read
  rw [expect_eq_ok closing] at whole
  rw [list_of_head? ahead, expect_eq_ok opened, whole]
  exact bare_add_unbraced_le closed conditional

section Inside

variable {statement : Scope → Parse Stmt}
  (h : ∀ scope, Nests (scope.room + 1) Stmt.chain (statement scope))

include h

theorem nests_block (scope : Scope) :
    Nests scope.room Stmt.chainOfBody (block statement scope) := by
  intro input rest body ran
  obtain ⟨u, mid, opened, entering⟩ := bind_eq_ok ran
  obtain ⟨inner, mid', entered, reading⟩ := bind_eq_ok entering
  obtain ⟨rfl, level⟩ := enter_eq_ok entered
  rw [bind_apply (turns_apply _)] at reading
  have nested := nests_statements (h inner) _ reading
  have fewer := unbraced_tail_le input.list
  rw [expect_eq_ok opened] at fewer ⊢
  rw [level]
  change unbraced mid'.list ≤ _ at fewer
  omega

/-- A `body` without braces is one more statement in the scope of the whole. -/
theorem body_eq_ok {scope : Scope} {stmts : List Stmt}
    (ran : body statement scope input = .ok (stmts, rest)) :
    unbraced rest.list ≤ unbraced input.list ∧ Stmt.chainOfBody stmts + unbraced rest.list ≤
      scope.room + (bare input.list + unbraced input.list) := by
  unfold body at ran
  rw [at?_ite] at ran
  unfold bare
  split at ran
  · next braced =>
    rw [if_pos braced, Nat.zero_add]
    exact nests_block h scope ran
  · next single =>
    rw [if_neg single]
    obtain ⟨stmt, mid, read, ran⟩ := bind_eq_ok ran
    cases ran
    have one := h scope read
    have alone : Stmt.chainOfBody [stmt] = stmt.chain := Nat.max_zero _
    omega

theorem nestsAt_loop (scope : Scope) :
    NestsAt (some (.keyword .whileLoop)) (scope.room + 1) Stmt.chain (do
      let test ← condition scope
      return .loop test (← body statement { scope with inLoop := true })) := by
  intro input rest stmt ahead ran
  obtain ⟨test, mid, read, ran⟩ := bind_eq_ok ran
  obtain ⟨stmts, last, reads, ran⟩ := bind_eq_ok ran
  cases ran
  have promised := condition_eq_ok (.inr rfl) ahead read
  have inside := body_eq_ok h reads
  rw [Stmt.chain]
  dsimp only at inside
  omega

theorem nestsAt_branch (scope : Scope) :
    NestsAt (some (.keyword .ifBranch)) (scope.room + 1) Stmt.chain (branch statement scope) := by
  intro input rest stmt ahead ran
  obtain ⟨test, mid, read, ran⟩ := bind_eq_ok ran
  obtain ⟨yes, mid', reads, ran⟩ := bind_eq_ok ran
  have promised := condition_eq_ok (.inl rfl) ahead read
  have inside := body_eq_ok h reads
  rw [at?_ite] at ran
  split at ran
  · next other =>
    rw [bind_apply (advance_apply mid'), at?_ite] at ran
    have behindElse := list_of_head? other
    split at ran
    · next again =>
      obtain ⟨inner, same, entered, reading⟩ := bind_eq_ok ran
      obtain ⟨rfl, level⟩ := enter_eq_ok entered
      obtain ⟨no, last, read, done⟩ := bind_eq_ok reading
      cases done
      have chained := h inner read
      have counted := unbraced_tail_le mid'.list
      rw [← Tokens.list_tail] at counted
      have alone : Stmt.chainOfBody [no] = no.chain := Nat.max_zero _
      rw [Stmt.chain]
      omega
    · next alone =>
      obtain ⟨no, last, read, ran⟩ := bind_eq_ok ran
      cases ran
      have otherwise := body_eq_ok h read
      have counted : unbraced mid'.list = bare mid'.tail.list + unbraced mid'.tail.list := by
        rw [behindElse, unbraced, Token.body?, if_neg alone]
        rfl
      rw [Stmt.chain]
      omega
  · cases ran
    rw [Stmt.chain, Stmt.chainOfBody]
    omega

theorem nests_statementWith (scope : Scope) :
    Nests (scope.room + 1) Stmt.chain (statementWith statement scope) := by
  refine .peek fun ahead => ?_
  split
  · exact nestsAt_declare scope false (by decide)
  · exact nestsAt_declare scope true (by decide)
  · exact nestsAt_branch h scope
  · exact nestsAt_loop h scope
  · split
    · exact nestsAt_flat (.advance (by decide) <| .bind .endStatement fun _ => .pure _)
        (.bind fun _ => .bind fun _ => .pure rfl)
    · exact (Nests.fault _).ahead _
  · split
    · exact nestsAt_flat (.advance (by decide) <| .bind .endStatement fun _ => .pure _)
        (.bind fun _ => .bind fun _ => .pure rfl)
    · exact (Nests.fault _).ahead _
  · exact nestsAt_result scope
  · exact nestsAt_flat (.advance (by decide) <| .bind (closes_expr ..) fun _ =>
      .bind .endStatement fun _ => .pure _)
      (.bind fun _ => .bind fun _ => .bind fun _ => .pure rfl)
  · exact (Nests.fault _).ahead _
  · intro input rest stmt _ ran
    obtain ⟨body, mid, read, ran⟩ := bind_eq_ok ran
    cases ran
    have inside := nests_block h scope read
    rw [Stmt.chain]
    omega
  · exact nestsAt_flat (.advance (by decide) <| .pure _) (.bind fun _ => .pure rfl)
  · exact (nests_expressionStatement scope).ahead _

end Inside

theorem nests_statement (size : Nat) (scope : Scope) :
    Nests (scope.room + 1) Stmt.chain (statement size scope) := by
  induction size generalizing scope with
  | zero => exact .unexpected _
  | succ size ih => exact nests_statementWith ih scope

/-! ### Declarations -/

/-- What `x` takes adds no bodies without braces. -/
def Drops (x : Parse α) : Prop :=
  ∀ ⦃input rest : Input⦄ ⦃a : α⦄, x input = .ok (a, rest) → unbraced rest.list ≤ unbraced input.list

theorem Closes.drops (hx : Closes x) : Drops x := fun _ _ _ ran => (hx ran).unbraced_le

theorem drops_advance : Drops advance := by
  intro input rest u ran
  cases ran
  change unbraced input.tail.list ≤ _
  rw [Tokens.list_tail]
  exact unbraced_tail_le input.list

theorem drops_expect (s : Symbol) (what : Expectation) : Drops (expect s what) := by
  intro input rest u ran
  rw [expect_eq_ok ran]
  exact unbraced_tail_le (.symbol s :: rest.list)

theorem Nests.after {f : α → Parse β} {height : β → Nat} (hx : Drops x)
    (hf : ∀ a, Nests room height (f a)) : Nests room height (x >>= f) := by
  intro input rest b ran
  obtain ⟨a, mid, first, second⟩ := bind_eq_ok ran
  have fewer := hx first
  have nested := hf a second
  omega

theorem closes_params (seen : List String) (n : Nat) : Closes (params seen n) := by
  induction n generalizing seen with
  | zero => exact .unexpected _
  | succ n ih =>
    refine .bind (.ident _) fun name => ?_
    split
    · exact .fault _
    · exact .eat (by decide) (ih _) (.pure _)

theorem nests_function (scope : Scope) :
    Nests scope.room (fun f => Stmt.chainOfBody f.body) (function scope) := by
  have further : ∀ (name : String) (names : List String),
      Nests scope.room (fun f : Function => Stmt.chainOfBody f.body) (do
        expect .rightParen
        let body ← block (statement (← turns)) scope
        return ⟨name, names, body⟩) := by
    refine fun name names => .after (drops_expect ..) fun _ => .after Closes.turns.drops fun n => ?_
    intro input rest f ran
    obtain ⟨body, mid, read, done⟩ := bind_eq_ok ran
    cases done
    exact nests_block (nests_statement n) scope read
  refine .after drops_advance fun _ => .after (Closes.ident _).drops fun name =>
    .after (drops_expect ..) fun _ =>
      .after (Closes.same fun input => ⟨_, at?_apply _ input⟩).drops fun empty => ?_
  dsimp only
  split
  · exact .after (Closes.pure _).drops (further name)
  · exact .after Closes.turns.drops fun n => .after (closes_params [] n).drops (further name)

/-- No function of the program has a chain that is longer. -/
def ChainsWithin (bound : Nat) (p : Program) : Prop :=
  ∀ ⦃name : String⦄ ⦃f : Function⦄, p.functions[name]? = some f → Stmt.chainOfBody f.body ≤ bound

theorem ChainsWithin.insert {bound : Nat} {p : Program} (h : ChainsWithin bound p) {f : Function}
    (within : Stmt.chainOfBody f.body ≤ bound) :
    ChainsWithin bound { p with functions := p.functions.insert f.name f } := by
  intro name g found
  rw [Std.ExtTreeMap.getElem?_insert] at found
  split at found
  · cases found
    exact within
  · exact h found

theorem addFunction_eq_ok {p next : Program} {start : Position} {f : Function}
    (h : addFunction p start f input = .ok (next, rest)) :
    rest = input ∧ next = { p with functions := p.functions.insert f.name f } := by
  unfold addFunction at h
  split at h <;> cases h
  exact ⟨rfl, rfl⟩

theorem addGlobal_eq_ok {p next : Program} {start : Position} {b : Binding}
    (h : addGlobal p start b input = .ok (next, rest)) :
    rest = input ∧ next = { p with globals := p.globals ++ [b] } := by
  unfold addGlobal at h
  split at h <;> cases h
  exact ⟨rfl, rfl⟩

/-- Where no more than the bound is left, `x` gives a program within the bound. -/
def Bounded (bound room : Nat) (ahead : Option Token) (x : Parse Program) : Prop :=
  ∀ ⦃input rest : Input⦄ ⦃p : Program⦄, input.list.head? = ahead →
    room + unbraced input.list ≤ bound → x input = .ok (p, rest) → ChainsWithin bound p

theorem Bounded.position {bound room : Nat} {ahead : Option Token} {f : Position → Parse Program}
    (h : ∀ start, Bounded bound room ahead (f start)) :
    Bounded bound room ahead (position >>= f) :=
  fun _ _ _ next enough ran => h _ next enough ran

theorem Bounded.peek {bound room : Nat} {ahead : Option Token}
    {f : Option Token → Parse Program} (h : Bounded bound room ahead (f ahead)) :
    Bounded bound room ahead (peek >>= f) := by
  intro input rest p next enough ran
  rw [bind_apply (peek_apply input), next] at ran
  exact h next enough ran

theorem bounded_global {bound room : Nat} {scope : Scope} {constant : Bool} {t : Token}
    (plain : t.Plain) {p : Program} (h : ChainsWithin bound p) {further : Program → Parse Program}
    (hf : ∀ next ahead, ChainsWithin bound next → Bounded bound room ahead (further next))
    (start : Position) :
    Bounded bound room (some t) (binding scope constant >>= fun b =>
      addGlobal p start b >>= further) := by
  intro input rest q ahead enough ran
  obtain ⟨b, mid, read, adding⟩ := bind_eq_ok ran
  obtain ⟨next, last, added, reading⟩ := bind_eq_ok adding
  obtain ⟨rfl, rfl⟩ := addGlobal_eq_ok added
  have kept : ChainsWithin bound { p with globals := p.globals ++ [b] } := h
  have fewer := (closes_binding scope constant plain ahead read).unbraced_le
  exact hf _ _ kept rfl (Nat.le_trans (Nat.add_le_add_left fewer _) enough) reading

theorem bounded_declarations {bound : Nat} (scope : Scope) (n : Nat) {p : Program}
    (h : ChainsWithin bound p) (ahead : Option Token) :
    Bounded bound scope.room ahead (declarations scope n p) := by
  induction n generalizing p ahead with
  | zero =>
    intro input rest q _ _ ran
    cases ran
    exact h
  | succ n ih =>
    refine .position fun start => .peek ?_
    split
    · intro input rest q _ _ ran
      cases ran
      exact h
    · intro input rest q _ enough ran
      have fewer := drops_advance (advance_apply input)
      exact ih h _ rfl (Nat.le_trans (Nat.add_le_add_left fewer _) enough) ran
    · intro input rest q _ enough ran
      obtain ⟨f, mid, read, adding⟩ := bind_eq_ok ran
      obtain ⟨next, last, added, reading⟩ := bind_eq_ok adding
      obtain ⟨rfl, rfl⟩ := addFunction_eq_ok added
      have nested := nests_function scope read
      dsimp only at nested
      exact ih (h.insert (by omega)) _ rfl (by omega) reading
    · exact bounded_global (by decide) h (fun next ahead kept => ih kept ahead) start
    · exact bounded_global (by decide) h (fun next ahead kept => ih kept ahead) start
    · intro input rest q _ _ ran
      cases ran

end Parser

/-- **How deep statements nest.**  In every function of a program that `parse` makes of a
source, the longest chain of statements each lying directly inside the one before,
`chainOfBody`, is no longer than `maxDepth` and the bodies without braces,
`unbracedIn source`, together. -/
theorem chain_le_of_parse {source : String} {maxDepth : Nat} {p : Program}
    (parsed : parse source maxDepth = .ok p) {name : String} {f : Function}
    (found : p.functions[name]? = some f) :
    Stmt.chainOfBody f.body ≤ maxDepth + unbracedIn source := by
  obtain ⟨tokens, read, ran⟩ := except_bind_eq_ok parsed
  obtain ⟨⟨q, rest⟩, declared, done⟩ := except_bind_eq_ok ran
  cases done
  have none : Parser.ChainsWithin (maxDepth + unbracedIn source) {} := by
    intro name f found
    simp at found
  have whole : unbracedIn source = unbraced tokens.list := by
    unfold unbracedIn
    rw [read]
  exact Parser.bounded_declarations ⟨maxDepth, maxDepth, false⟩ _ none _ rfl
    (Nat.le_of_eq (congrArg (maxDepth + ·) whole.symm)) declared found

namespace BracelessLoops

/-- The source is a program whose function `f` has a chain that checks out. -/
def chains (source : String) (maxDepth : Nat) (check : Nat → Bool) : Bool :=
  (parse source maxDepth).toOption.any fun p =>
    p.functions["f"]?.any fun f => check (Stmt.chainOfBody f.body)

theorem exists_of_chains {source : String} {maxDepth : Nat} {check : Nat → Bool}
    (h : chains source maxDepth check = true) :
    ∃ p f, parse source maxDepth = .ok p ∧ p.functions["f"]? = some f ∧
      check (Stmt.chainOfBody f.body) = true := by
  obtain ⟨p, parsed, any⟩ := exists_ok_of_any h
  obtain ⟨f, found, checked⟩ := (Option.any_eq_true _ _).1 any
  exact ⟨p, f, parsed, found, checked⟩

/-- Bodies in braces. -/
def braced : String := "function f() \x7b while (1) \x7b if (2) \x7b \x7d \x7d \x7d"

/-- `chain_le_of_parse` with braces everywhere: the nesting that was asked for is kept. -/
theorem braced_chain_le : unbracedIn braced = 0 ∧ ∃ p f, parse braced 3 = .ok p ∧
    p.functions["f"]? = some f ∧ Stmt.chainOfBody f.body ≤ 3 := by
  have none : unbracedIn braced = 0 := by decide +kernel
  have evaluated : chains braced 3 (fun _ => true) = true := by decide +kernel
  obtain ⟨p, f, parsed, found, -⟩ := exists_of_chains evaluated
  have bounded := chain_le_of_parse parsed found
  rw [none] at bounded
  exact ⟨none, p, f, parsed, found, bounded⟩

/-- Two loops, each the whole body of the function or loop around it. -/
def source : String := "function f() \x7b while (1) while (1) ; \x7d"

/-- Without braces three statements nest where two may. -/
theorem chain_gt : ∃ p f, parse source 2 = .ok p ∧ p.functions["f"]? = some f ∧
    2 < Stmt.chainOfBody f.body := by
  have evaluated : chains source 2 (fun n => decide (2 < n)) = true := by decide +kernel
  obtain ⟨p, f, parsed, found, checked⟩ := exists_of_chains evaluated
  exact ⟨p, f, parsed, found, of_decide_eq_true checked⟩

end BracelessLoops

end LedgerScript.Script
