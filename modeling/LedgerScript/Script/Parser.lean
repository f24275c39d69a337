import LedgerScript.Script.Lexer
import LedgerScript.Script.Program

/-!
# From tokens to programs

A recursive descent.  Nesting is counted down: `room` is the number of blocks
and expressions that may still open inside the current one, and the grammar of
expressions recurses on it.  Statements need not open a block, so theirs
recurses on the number of tokens instead, of which each takes at least one.
-/

namespace LedgerScript.Script

namespace Parser

/-- What is left to read. -/
abbrev Input := Tokens

/-- Reads something from the tokens, or finds the source at fault. -/
abbrev Parse := StateT Input (Except ParseError)

/-! ## Single tokens -/

/-- The place of the next token, or the end of the source. -/
def position : Parse Position := fun input =>
  .ok (((input.placed.head?).map Placed.position).getD input.finish, input)

/-- The next token, which stays. -/
def peek : Parse (Option Token) := fun input =>
  .ok (input.placed.head?.map Placed.token, input)

/-- Takes the next token; at the end of the source there is none to take. -/
def advance : Parse Unit := fun input =>
  .ok ((), { input with placed := input.placed.tail })

/-- The source is at fault here. -/
def fault {α : Type} (f : ParseFault) : Parse α := do
  throw ⟨f, ← position⟩

/-- Something else is wanted here. -/
def unexpected {α : Type} (what : Expectation) : Parse α := do
  fault (.expected what (← peek))

/-- Whether the next token is `t`. -/
def at? (t : Token) : Parse Bool := do
  return (← peek) = some t

/-- Takes the symbol `s` if it is next. -/
def eat (s : Symbol) : Parse Bool := do
  if ← at? (.symbol s) then advance; return true else return false

/-- Takes the symbol `s`, which must be next. -/
def expect (s : Symbol) (what : Expectation := .symbol s) : Parse Unit := do
  unless ← eat s do unexpected what

/-- Takes a name. -/
def ident (what : Expectation) : Parse String := do
  match ← peek with
  | some (.ident name) => advance; return name
  | _ => unexpected what

/-- Turns enough for a repetition of which every turn but the last takes a
token. -/
def turns : Parse Nat := fun input =>
  .ok (input.placed.length + 1, input)

/-! ## Expressions -/

/-- Expressions between separators, up to the symbol `close`; a comma may
follow the last one. -/
def items (expr : Parse Expr) (close : Symbol) : Nat → Parse (List Expr)
  | 0 => unexpected .commaOrClose
  | n + 1 => do
    if ← eat close then return []
    let item ← expr
    if ← eat .comma then return item :: (← items expr close n)
    expect close .commaOrClose
    return [item]

/-- The entries of a map up to its closing brace. -/
def entries (expr : Parse Expr) : Nat → Parse (List (String × Expr))
  | 0 => unexpected .commaOrBrace
  | n + 1 => do
    if ← eat .rightBrace then return []
    let token ← peek
    advance
    let key ← match token with
      | some (.ident name) => pure name
      | some (.str s) => pure s
      | _ => fault .expectedMapKey
    expect .colon
    let value ← expr
    if ← eat .comma then return (key, value) :: (← entries expr n)
    expect .rightBrace .commaOrBrace
    return [(key, value)]

/-- A literal, a name, or something between brackets. -/
def primary (expr : Parse Expr) : Parse Expr := do
  match ← peek with
  | some (.int n) => advance; return .int n
  | some (.str s) => advance; return .str s
  | some (.ident name) => advance; return .ident name
  | some (.keyword .trueValue) => advance; return .bool true
  | some (.keyword .falseValue) => advance; return .bool false
  | some (.keyword .nullValue) => advance; return .null
  | some (.symbol .leftParen) =>
    advance
    let inner ← expr
    expect .rightParen
    return inner
  | some (.symbol .leftBracket) =>
    advance
    return .list (← items expr .rightBracket (← turns))
  | some (.symbol .leftBrace) =>
    advance
    return .map (← entries expr (← turns))
  | _ => unexpected .expression

/-- Member accesses, index accesses and argument lists behind `base`. -/
def accesses (expr : Parse Expr) : Nat → Expr → Parse Expr
  | 0, base => return base
  | n + 1, base => do
    if ← eat .dot then
      let name ← ident .propertyName
      accesses expr n (.member base name)
    else if ← eat .leftBracket then
      let key ← expr
      expect .rightBracket
      accesses expr n (.index base key)
    else if ← at? (.symbol .leftParen) then
      match base with
      | .ident name =>
        advance
        let args ← items expr .rightParen (← turns)
        accesses expr n (.call name args)
      | _ => fault .notCallable
    else return base

/-- The operator of `ops` that is next, if one is. -/
def operator? {α : Type} (ops : List (Symbol × α)) : Parse (Option α) := do
  match ← peek with
  | some (.symbol s) => return ops.lookup s
  | _ => return none

/-- Operands that one level of operators joins from the left. -/
def joined {α : Type} (ops : List (Symbol × α)) (join : α → Expr → Expr → Expr)
    (operand : Parse Expr) : Nat → Expr → Parse Expr
  | 0, left => return left
  | n + 1, left => do
    match ← operator? ops with
    | some op =>
      advance
      let right ← operand
      joined ops join operand n (join op left right)
    | none => return left

/-- One level of operators over the next tighter one. -/
def level {α : Type} (ops : List (Symbol × α)) (join : α → Expr → Expr → Expr)
    (operand : Parse Expr) : Parse Expr := do
  let left ← operand
  joined ops join operand (← turns) left

/-- The levels of binary operators from the tightest to the loosest. -/
def binaryLevels : List (List (Symbol × BinaryOp)) :=
  [[(.star, .mul), (.slash, .div), (.percent, .rem)],
    [(.plus, .add), (.minus, .sub)],
    [(.lessEqual, .ltEq), (.less, .lt), (.greaterEqual, .gtEq), (.greater, .gt)],
    [(.equal, .eq), (.notEqual, .notEq)]]

/-- Everything that operators join, given what they join. -/
def operators (unary : Parse Expr) : Parse Expr :=
  let arithmetic := binaryLevels.foldl (fun operand ops => level ops .binary operand) unary
  level [(.orOr, LogicalOp.or)] .logical (level [(.andAnd, LogicalOp.and)] .logical arithmetic)

/-- A chain of operators before an operand; `deeper` reads the operand of an
operator and `expr` what stands between brackets. -/
def unaryWith (deeper expr : Parse Expr) : Parse Expr := do
  if ← eat .bang then
    return .unary .not (← deeper)
  else if ← eat .minus then
    return .unary .neg (← deeper)
  else
    let base ← primary expr
    accesses expr (← turns) base

/-- Nothing more may open here. -/
def tooDeep {α : Type} (limit : Nat) : Parse α :=
  fault (.nestingTooDeep limit)

/-- An operand with `room` more levels inside it. -/
def unary (limit : Nat) : (room : Nat) → Parse Expr
  | 0 => unaryWith (tooDeep limit) (tooDeep limit)
  | room + 1 => unaryWith (unary limit room) (operators (unary limit room))

/-- An expression, which takes one level of `room`. -/
def expr (limit : Nat) : (room : Nat) → Parse Expr
  | 0 => tooDeep limit
  | room + 1 => operators (unary limit room)

/-! ## Statements -/

/-- Where a statement stands. -/
structure Scope where
  /-- The number of levels that may be open at once. -/
  limit : Nat
  /-- How many more may open. -/
  room : Nat
  /-- Inside the body of a loop. -/
  inLoop : Bool

/-- One level further in. -/
def Scope.enter (scope : Scope) : Parse Scope :=
  match scope.room with
  | 0 => tooDeep scope.limit
  | room + 1 => return { scope with room := room }

/-- An expression in its scope. -/
def Scope.expr (scope : Scope) : Parse Expr :=
  Parser.expr scope.limit scope.room

/-- A semicolon may end a statement. -/
def endStatement : Parse Unit := do
  let _ ← eat .semicolon

/-- A declaration from its reserved word on. -/
def binding (scope : Scope) (constant : Bool) : Parse Binding := do
  advance
  let name ← ident .bindingName
  if ← eat .assign then
    let init ← scope.expr
    endStatement
    return ⟨name, some init, constant⟩
  else if constant then fault .constWithoutValue
  else
    endStatement
    return ⟨name, none, constant⟩

/-- Statements up to a closing brace. -/
def statements (statement : Parse Stmt) : Nat → Parse (List Stmt)
  | 0 => unexpected (.symbol .rightBrace)
  | n + 1 => do
    match ← peek with
    | some (.symbol .rightBrace) => advance; return []
    | none => unexpected (.symbol .rightBrace)
    | _ =>
      let first ← statement
      return first :: (← statements statement n)

/-- A block, which takes one level of its scope. -/
def block (statement : Scope → Parse Stmt) (scope : Scope) : Parse (List Stmt) := do
  expect .leftBrace
  let inner ← scope.enter
  statements (statement inner) (← turns)

/-- A block, or a single statement in the scope of the whole. -/
def body (statement : Scope → Parse Stmt) (scope : Scope) : Parse (List Stmt) := do
  if ← at? (.symbol .leftBrace) then block statement scope
  else return [← statement scope]

/-- A condition between parentheses, from the reserved word before it on. -/
def condition (scope : Scope) : Parse Expr := do
  advance
  expect .leftParen
  let test ← scope.expr
  expect .rightParen
  return test

/-- A branch; another branch right behind `else` takes one level. -/
def branch (statement : Scope → Parse Stmt) (scope : Scope) : Parse Stmt := do
  let test ← condition scope
  let yes ← body statement scope
  if ← at? (.keyword .elseBranch) then
    advance
    if ← at? (.keyword .ifBranch) then
      let inner ← scope.enter
      return .branch test yes [← statement inner]
    else
      return .branch test yes (← body statement scope)
  else return .branch test yes []

/-- The assignment operators. -/
def assignments : List (Symbol × AssignOp) :=
  [(.assign, .set), (.plusAssign, .add), (.minusAssign, .sub)]

/-- An expression, or an assignment to the place it names. -/
def expressionStatement (scope : Scope) : Parse Stmt := do
  let start ← position
  let left ← scope.expr
  match ← operator? assignments with
  | some op =>
    advance
    match left.place? with
    | none => throw ⟨.invalidTarget, start⟩
    | some target =>
      let value ← scope.expr
      endStatement
      return .assign target op value
  | none =>
    endStatement
    return .evaluate left

/-- A statement, given how to read the statements inside it. -/
def statementWith (statement : Scope → Parse Stmt) (scope : Scope) : Parse Stmt := do
  match ← peek with
  | some (.keyword .letBinding) => return .declare (← binding scope false)
  | some (.keyword .constBinding) => return .declare (← binding scope true)
  | some (.keyword .ifBranch) => branch statement scope
  | some (.keyword .whileLoop) =>
    let test ← condition scope
    return .loop test (← body statement { scope with inLoop := true })
  | some (.keyword .breakLoop) =>
    if scope.inLoop then advance; endStatement; return .leave
    else fault .breakOutsideLoop
  | some (.keyword .continueLoop) =>
    if scope.inLoop then advance; endStatement; return .again
    else fault .continueOutsideLoop
  | some (.keyword .returnValue) =>
    advance
    match ← peek with
    | some (.symbol .semicolon) => endStatement; return .result none
    | some (.symbol .rightBrace) => return .result none
    | _ =>
      let value ← scope.expr
      endStatement
      return .result (some value)
  | some (.keyword .throwValue) =>
    advance
    let value ← scope.expr
    endStatement
    return .fail value
  | some (.keyword .function) => fault .nestedFunction
  | some (.symbol .leftBrace) => return .block (← block statement scope)
  | some (.symbol .semicolon) => advance; return .block []
  | _ => expressionStatement scope

/-- A statement of at most `size` tokens. -/
def statement : (size : Nat) → Scope → Parse Stmt
  | 0, _ => unexpected .expression
  | size + 1, scope => statementWith (statement size) scope

/-! ## The top level -/

/-- Parameter names up to the closing parenthesis, none of them twice. -/
def params (seen : List String) : Nat → Parse (List String)
  | 0 => unexpected .parameterName
  | n + 1 => do
    let name ← ident .parameterName
    if name ∈ seen then fault (.duplicateParameter name)
    else if ← eat .comma then params (seen ++ [name]) n
    else return seen ++ [name]

/-- A function declaration. -/
def function (scope : Scope) : Parse Function := do
  advance
  let name ← ident .functionName
  expect .leftParen
  let names ← if ← at? (.symbol .rightParen) then pure [] else params [] (← turns)
  expect .rightParen
  let body ← block (statement (← turns)) scope
  return ⟨name, names, body⟩

/-- Adds a function whose declaration begins at `start`. -/
def addFunction (program : Program) (start : Position) (f : Function) : Parse Program :=
  if program.declares f.name then throw ⟨.duplicateTopLevel f.name, start⟩
  else return { program with functions := program.functions.insert f.name f }

/-- Adds a binding whose declaration begins at `start`. -/
def addGlobal (program : Program) (start : Position) (b : Binding) : Parse Program :=
  if program.declares b.name then throw ⟨.duplicateTopLevel b.name, start⟩
  else return { program with globals := program.globals ++ [b] }

/-- Declarations up to the end of the source, added to those already read. -/
def declarations (scope : Scope) : Nat → Program → Parse Program
  | 0, program => return program
  | n + 1, program => do
    let start ← position
    match ← peek with
    | none => return program
    | some (.symbol .semicolon) =>
      advance
      declarations scope n program
    | some (.keyword .function) =>
      declarations scope n (← addFunction program start (← function scope))
    | some (.keyword .letBinding) =>
      declarations scope n (← addGlobal program start (← binding scope false))
    | some (.keyword .constBinding) =>
      declarations scope n (← addGlobal program start (← binding scope true))
    | _ => fault .notTopLevel

end Parser

/-- The program of a source whose blocks and expressions nest at most
`maxDepth` deep. -/
def parse (source : String) (maxDepth : Nat) : Except ParseError Program := do
  let tokens ← tokenize source
  let scope : Parser.Scope := ⟨maxDepth, maxDepth, false⟩
  let (program, _) ← Parser.declarations scope (tokens.placed.length + 1) {} tokens
  return program

end LedgerScript.Script
