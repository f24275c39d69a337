import Std.Data.ExtTreeMap

/-!
# Programs

What a source says once its layout is gone: top-level functions, each under
its name, and top-level bindings in the order in which they are evaluated.
-/

namespace LedgerScript.Script

/-- An operator before its operand. -/
inductive UnaryOp where
  | not
  | neg
  deriving DecidableEq, Repr

/-- An operator that evaluates both operands. -/
inductive BinaryOp where
  | add
  | sub
  | mul
  | div
  | rem
  | eq
  | notEq
  | lt
  | ltEq
  | gt
  | gtEq
  deriving DecidableEq, Repr

/-- The name of an operator in messages. -/
def BinaryOp.label : BinaryOp → String
  | add => "Add"
  | sub => "Sub"
  | mul => "Mul"
  | div => "Div"
  | rem => "Rem"
  | eq => "Eq"
  | notEq => "NotEq"
  | lt => "Lt"
  | ltEq => "LtEq"
  | gt => "Gt"
  | gtEq => "GtEq"

/-- An operator that may leave its right operand alone. -/
inductive LogicalOp where
  | and
  | or
  deriving DecidableEq, Repr

/-- An assignment replaces the value of its target, or adds to it, or takes
away from it. -/
inductive AssignOp where
  | set
  | add
  | sub
  deriving DecidableEq, Repr

/-- Expressions. -/
inductive Expr where
  | null
  | bool (b : Bool)
  | int (n : Int64)
  | str (s : String)
  | ident (name : String)
  | list (items : List Expr)
  /-- Entries in the order of the source; a later one replaces an earlier one
  of the same key. -/
  | map (entries : List (String × Expr))
  | member (base : Expr) (name : String)
  | index (base key : Expr)
  | call (name : String) (args : List Expr)
  | unary (op : UnaryOp) (operand : Expr)
  | binary (op : BinaryOp) (left right : Expr)
  | logical (op : LogicalOp) (left right : Expr)
  deriving Inhabited

/-- One step into a map or a list. -/
inductive Accessor where
  | member (name : String)
  | index (key : Expr)

/-- What can be assigned to: a variable, or a place inside its value. -/
structure Place where
  root : String
  path : List Accessor

/-- The declaration of a variable; without an initialiser it holds null. -/
structure Binding where
  name : String
  init : Option Expr
  constant : Bool

/-- Statements. -/
inductive Stmt where
  | declare (binding : Binding)
  | assign (target : Place) (op : AssignOp) (value : Expr)
  | branch (condition : Expr) (yes no : List Stmt)
  | loop (condition : Expr) (body : List Stmt)
  | block (body : List Stmt)
  | leave
  | again
  | result (value : Option Expr)
  | fail (value : Expr)
  | evaluate (value : Expr)
  deriving Inhabited

/-- A function declaration. -/
structure Function where
  name : String
  params : List String
  body : List Stmt

/-- Functions by name. -/
abbrev FunctionTable := Std.ExtTreeMap String Function

/-- A whole program. -/
structure Program where
  functions : FunctionTable := ∅
  globals : List Binding := []

/-- The place that an expression names, if it names one. -/
def Expr.place? : Expr → Option Place
  | ident root => some ⟨root, []⟩
  | member base name => base.place?.map fun p => { p with path := p.path ++ [.member name] }
  | index base key => base.place?.map fun p => { p with path := p.path ++ [.index key] }
  | _ => none

/-- The expression at the root of a chain of accesses, and the accesses in the
order in which they are made, followed by those of `path`. -/
def Expr.chain (path : List Accessor) : Expr → Expr × List Accessor
  | member base name => base.chain (.member name :: path)
  | index base key => base.chain (.index key :: path)
  | root => (root, path)

/-- A name is taken when a function or a binding of the top level has it. -/
def Program.declares (p : Program) (name : String) : Bool :=
  p.functions.contains name || p.globals.any (·.name = name)

end LedgerScript.Script
