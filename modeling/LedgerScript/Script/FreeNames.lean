import LedgerScript.Script.Program
import Std.Data.ExtTreeSet

/-!
# Free names

The names that a program uses, as variables or as functions to call, and
declares nowhere.  Declarations count for the whole program, wherever they
stand, so a local name hides a free one everywhere.
-/

namespace LedgerScript.Script

mutual

/-- The names that an expression uses. -/
def Expr.names : Expr → List String
  | .null | .bool _ | .int _ | .str _ => []
  | .ident name => [name]
  | .list items => namesOfItems items
  | .map entries => namesOfEntries entries
  | .member base _ => base.names
  | .index base key => base.names ++ key.names
  | .call name args => name :: namesOfItems args
  | .unary _ operand => operand.names
  | .binary _ left right => left.names ++ right.names
  | .logical _ left right => left.names ++ right.names

/-- The names that a list of expressions uses. -/
def Expr.namesOfItems : List Expr → List String
  | [] => []
  | item :: rest => item.names ++ namesOfItems rest

/-- The names that the values of a map literal use. -/
def Expr.namesOfEntries : List (String × Expr) → List String
  | [] => []
  | (_, item) :: rest => item.names ++ namesOfEntries rest

end

/-- The names that an accessor uses. -/
def Accessor.names : Accessor → List String
  | member _ => []
  | index key => key.names

/-- The names that the initialiser of a binding uses. -/
def Binding.names (b : Binding) : List String :=
  (b.init.map Expr.names).getD []

mutual

/-- The names that a statement uses. -/
def Stmt.names : Stmt → List String
  | .declare b => b.names
  | .assign target _ value =>
    target.root :: target.path.flatMap Accessor.names ++ value.names
  | .branch condition yes no => condition.names ++ namesOfBody yes ++ namesOfBody no
  | .loop condition body => condition.names ++ namesOfBody body
  | .block body => namesOfBody body
  | .leave | .again | .result none => []
  | .result (some value) => value.names
  | .fail value => value.names
  | .evaluate value => value.names

/-- The names that a sequence of statements uses. -/
def Stmt.namesOfBody : List Stmt → List String
  | [] => []
  | stmt :: rest => stmt.names ++ namesOfBody rest

end

mutual

/-- The names that a statement declares, inner statements included. -/
def Stmt.declared : Stmt → List String
  | .declare b => [b.name]
  | .branch _ yes no => declaredByBody yes ++ declaredByBody no
  | .loop _ body => declaredByBody body
  | .block body => declaredByBody body
  | _ => []

/-- The names that a sequence of statements declares. -/
def Stmt.declaredByBody : List Stmt → List String
  | [] => []
  | stmt :: rest => stmt.declared ++ declaredByBody rest

end

namespace Program

/-- Every name that a program uses. -/
def names (p : Program) : List String :=
  p.globals.flatMap Binding.names ++
    p.functions.toList.flatMap fun (_, f) => Stmt.namesOfBody f.body

/-- Every name that a program declares. -/
def declared (p : Program) : List String :=
  p.functions.keys ++ p.globals.map Binding.name ++
    p.functions.toList.flatMap fun (_, f) => f.params ++ Stmt.declaredByBody f.body

/-- The names that a program uses and does not declare, in rising order. -/
def freeNames (p : Program) : List String :=
  let declared := Std.ExtTreeSet.ofList p.declared
  (Std.ExtTreeSet.ofList p.names).toList.filter (!declared.contains ·)

/-- A name is free exactly if it is used and not declared. -/
theorem mem_freeNames {p : Program} {name : String} :
    name ∈ p.freeNames ↔ name ∈ p.names ∧ name ∉ p.declared := by
  simp [freeNames, List.contains_eq_mem]

end Program

end LedgerScript.Script
