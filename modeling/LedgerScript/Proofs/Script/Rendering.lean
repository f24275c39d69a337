import LedgerScript.Proofs.Script.Spelling

/-!
# Renderings of programs

A program is written out as tokens, with parentheses where its shape asks for them
(`Program.tokens`), and the tokens are laid out as a source (`Program.render`).
Programs that can be written out are well formed (`Program.WellFormed`): names are
names, constants have values, and loops are left from inside only.
-/

namespace LedgerScript.Script

/-! ## Operators -/

def UnaryOp.symbol : UnaryOp → Symbol
  | not => .bang
  | neg => .minus

def BinaryOp.symbol : BinaryOp → Symbol
  | add => .plus
  | sub => .minus
  | mul => .star
  | div => .slash
  | rem => .percent
  | eq => .equal
  | notEq => .notEqual
  | lt => .less
  | ltEq => .lessEqual
  | gt => .greater
  | gtEq => .greaterEqual

def LogicalOp.symbol : LogicalOp → Symbol
  | and => .andAnd
  | or => .orOr

def AssignOp.symbol : AssignOp → Symbol
  | set => .assign
  | add => .plusAssign
  | sub => .minusAssign

/-- How loosely an operator binds; accesses have rank zero and operators before
their operand rank one. -/
def BinaryOp.rank : BinaryOp → Nat
  | mul | div | rem => 2
  | add | sub => 3
  | lt | ltEq | gt | gtEq => 4
  | eq | notEq => 5

def LogicalOp.rank : LogicalOp → Nat
  | and => 6
  | or => 7

/-- How loosely the symbols bind that make what stands before them a part of a
larger expression. -/
def Symbol.joint : Symbol → Option Nat
  | .dot | .leftBracket | .leftParen => some 0
  | .star | .slash | .percent => some 2
  | .plus | .minus => some 3
  | .less | .lessEqual | .greater | .greaterEqual => some 4
  | .equal | .notEqual => some 5
  | .andAnd => some 6
  | .orOr => some 7
  | _ => none

/-- How loosely the outermost part of an expression binds. -/
def Expr.rank : Expr → Nat
  | unary .. => 1
  | binary op .. => op.rank
  | logical op .. => op.rank
  | _ => 0

/-! ## Expressions as tokens -/

/-- What a rendering is free to choose. -/
structure Style where
  /-- Keys of maps stand without quotes where they can. -/
  bareKeys : Bool
  /-- A branch that is all there is behind `else` stands without braces. -/
  elseIf : Bool

/-- The token of a key. -/
def Style.key (style : Style) (key : String) : Token :=
  if style.bareKeys && isName key then .ident key else .str key

def parens (inner : List Token) : List Token :=
  .symbol .leftParen :: (inner ++ [.symbol .rightParen])

def braces (inner : List Token) : List Token :=
  .symbol .leftBrace :: (inner ++ [.symbol .rightBrace])

/-- The comma before the rest of a list. -/
def comma {α : Type} (rest : List α) : List Token :=
  if rest.isEmpty then [] else [.symbol .comma]

/-- The tokens of an expression where none may bind more loosely than the rank. -/
def Expr.fitted (e : Expr) (rank : Nat) (tokens : List Token) : List Token :=
  if e.rank ≤ rank then tokens else parens tokens

mutual

/-- An expression as tokens. -/
@[simp] def Expr.tokens (style : Style) : Expr → List Token
  | .null => [.keyword .nullValue]
  | .bool b => [.keyword (if b then .trueValue else .falseValue)]
  | .int n => [.int n]
  | .str s => [.str s]
  | .ident name => [.ident name]
  | .list items => .symbol .leftBracket :: (tokensOfItems style items ++ [.symbol .rightBracket])
  | .map entries => braces (tokensOfEntries style entries)
  | .member base name => base.fitted 0 (base.tokens style) ++ [.symbol .dot, .ident name]
  | .index base key =>
    base.fitted 0 (base.tokens style) ++
      .symbol .leftBracket :: (key.tokens style ++ [.symbol .rightBracket])
  | .call name args => .ident name :: parens (tokensOfItems style args)
  | .unary op operand => .symbol op.symbol :: operand.fitted 1 (operand.tokens style)
  | .binary op left right =>
    left.fitted op.rank (left.tokens style) ++
      .symbol op.symbol :: right.fitted (op.rank - 1) (right.tokens style)
  | .logical op left right =>
    left.fitted op.rank (left.tokens style) ++
      .symbol op.symbol :: right.fitted (op.rank - 1) (right.tokens style)

@[simp] def Expr.tokensOfItems (style : Style) : List Expr → List Token
  | [] => []
  | item :: rest => item.tokens style ++ (comma rest ++ tokensOfItems style rest)

@[simp] def Expr.tokensOfEntries (style : Style) : List (String × Expr) → List Token
  | [] => []
  | (key, value) :: rest =>
    style.key key :: .symbol .colon ::
      (value.tokens style ++ (comma rest ++ tokensOfEntries style rest))

end

/-! ## Statements as tokens -/

/-- An expression that stands as a statement: between parentheses if it begins with a
brace, which would be that of a block. -/
def Expr.standing (style : Style) (e : Expr) : List Token :=
  if (e.tokens style).head? = some (.symbol .leftBrace) then parens (e.tokens style)
  else e.tokens style

def Accessor.after (base : Expr) : Accessor → Expr
  | member name => .member base name
  | index key => .index base key

/-- The expression that names a place. -/
def Place.expr (target : Place) : Expr :=
  target.path.foldl Accessor.after (.ident target.root)

def Binding.tokens (style : Style) (b : Binding) : List Token :=
  .keyword (if b.constant then .constBinding else .letBinding) :: .ident b.name ::
    match b.init with
    | none => [.symbol .semicolon]
    | some e => .symbol .assign :: (e.tokens style ++ [.symbol .semicolon])

def Stmt.isBranch : Stmt → Bool
  | branch .. => true
  | _ => false

mutual

/-- A statement as tokens; bodies stand in braces. -/
@[simp] def Stmt.tokens (style : Style) : Stmt → List Token
  | .declare b => b.tokens style
  | .assign target op value =>
    target.expr.tokens style ++ .symbol op.symbol :: (value.tokens style ++ [.symbol .semicolon])
  | .branch test yes no =>
    .keyword .ifBranch :: (parens (test.tokens style) ++
      (braces (tokensOfBody style yes) ++ tokensOfElse style no))
  | .loop test body =>
    .keyword .whileLoop :: (parens (test.tokens style) ++ braces (tokensOfBody style body))
  | .block body => braces (tokensOfBody style body)
  | .leave => [.keyword .breakLoop, .symbol .semicolon]
  | .again => [.keyword .continueLoop, .symbol .semicolon]
  | .result none => [.keyword .returnValue, .symbol .semicolon]
  | .result (some value) =>
    .keyword .returnValue :: (value.tokens style ++ [.symbol .semicolon])
  | .fail value => .keyword .throwValue :: (value.tokens style ++ [.symbol .semicolon])
  | .evaluate value => value.standing style ++ [.symbol .semicolon]

@[simp] def Stmt.tokensOfBody (style : Style) : List Stmt → List Token
  | [] => []
  | stmt :: rest => stmt.tokens style ++ tokensOfBody style rest

/-- What stands behind the first body of a branch. -/
@[simp] def Stmt.tokensOfElse (style : Style) : List Stmt → List Token
  | [] => []
  | stmt :: rest => .keyword .elseBranch ::
    if style.elseIf && stmt.isBranch && rest.isEmpty then stmt.tokens style
    else braces (stmt.tokens style ++ tokensOfBody style rest)

end

/-! ## Programs as sources -/

def tokensOfNames : List String → List Token
  | [] => []
  | name :: rest => .ident name :: (comma rest ++ tokensOfNames rest)

def Function.tokens (style : Style) (f : Function) : List Token :=
  .keyword .function :: .ident f.name ::
    (parens (tokensOfNames f.params) ++ braces (Stmt.tokensOfBody style f.body))

/-- A program as tokens, its functions before its bindings. -/
def Program.tokens (style : Style) (p : Program) : List Token :=
  p.functions.toList.flatMap (fun (_, f) => f.tokens style) ++
    p.globals.flatMap (Binding.tokens style)

/-- A program as a source. -/
def Program.render (style : Style) (p : Program) : String :=
  String.ofList (layout (p.tokens style))

example : layout (Expr.tokens ⟨true, true⟩ (.binary .sub (.member (.unary .neg (.ident "a")) "b")
    (.binary .sub (.binary .mul (.int 2) (.ident "c")) (.str "it\n")))) =
    "( - a ) . b - ( 2 * c - \"it\\n\" ) ".toList := by decide

/-! ## Well-formed programs -/

mutual

/-- Names are names, and no integer is negative. -/
def Expr.wellFormed : Expr → Bool
  | .null | .bool _ | .str _ => true
  | .int n => decide (0 ≤ n)
  | .ident name => isName name
  | .list items => itemsWellFormed items
  | .map entries => entriesWellFormed entries
  | .member base name => base.wellFormed && isName name
  | .index base key => base.wellFormed && key.wellFormed
  | .call name args => isName name && itemsWellFormed args
  | .unary _ operand => operand.wellFormed
  | .binary _ left right => left.wellFormed && right.wellFormed
  | .logical _ left right => left.wellFormed && right.wellFormed

def Expr.itemsWellFormed : List Expr → Bool
  | [] => true
  | item :: rest => item.wellFormed && itemsWellFormed rest

def Expr.entriesWellFormed : List (String × Expr) → Bool
  | [] => true
  | (_, value) :: rest => value.wellFormed && entriesWellFormed rest

end

/-- A binding has a name, and a constant has a value. -/
def Binding.wellFormed (b : Binding) : Bool :=
  isName b.name && match b.init with
    | none => !b.constant
    | some e => e.wellFormed

mutual

/-- The parts are well formed, and `break` and `continue` stand inside of loops. -/
def Stmt.wellFormed (inLoop : Bool) : Stmt → Bool
  | .declare b => b.wellFormed
  | .assign target _ value => target.expr.wellFormed && value.wellFormed
  | .branch test yes no =>
    test.wellFormed && bodyWellFormed inLoop yes && bodyWellFormed inLoop no
  | .loop test body => test.wellFormed && bodyWellFormed true body
  | .block body => bodyWellFormed inLoop body
  | .leave | .again => inLoop
  | .result none => true
  | .result (some value) => value.wellFormed
  | .fail value => value.wellFormed
  | .evaluate value => value.wellFormed

def Stmt.bodyWellFormed (inLoop : Bool) : List Stmt → Bool
  | [] => true
  | stmt :: rest => stmt.wellFormed inLoop && bodyWellFormed inLoop rest

end

/-- Names are names, no parameter stands twice, and the body is well formed. -/
def Function.wellFormed (f : Function) : Bool :=
  isName f.name && f.params.all isName && decide f.params.Nodup &&
    Stmt.bodyWellFormed false f.body

theorem Program.declares_eq_false {p : Program} {name : String} : p.declares name = false ↔
    name ∉ p.functions ∧ ∀ b ∈ p.globals, b.name ≠ name := by
  simp [declares, ← Std.ExtTreeMap.contains_iff_mem]

/-- The parts are well formed, every function stands under its name, and no two
names of the top level are the same. -/
structure Program.WellFormed (p : Program) : Prop where
  functions : ∀ ⦃name : String⦄ ⦃f : Function⦄, p.functions[name]? = some f →
    f.name = name ∧ f.wellFormed = true
  globals : ∀ b ∈ p.globals, b.wellFormed = true
  apart : ∀ b ∈ p.globals, b.name ∉ p.functions
  distinct : (p.globals.map Binding.name).Nodup

end LedgerScript.Script
