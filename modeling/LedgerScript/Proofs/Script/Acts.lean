import LedgerScript.Script.FreeNames

/-!
# What programs do beyond whole variables

Some properties of runs hold only of programs that stay away from certain acts:
calls of certain names, or changes inside the value of a variable.  Which acts
a program has can be read off its text (`Program.acts`).
-/

namespace LedgerScript.Script

/-- What a part of a program may do beyond reading and replacing variables. -/
inductive Act where
  /-- A call of a name. -/
  | call (name : String)
  /-- An assignment to a place inside the value of a variable. -/
  | change (root : String)
  deriving DecidableEq

mutual

def Expr.acts : Expr → List Act
  | .null | .bool _ | .int _ | .str _ | .ident _ => []
  | .list items => actsOfItems items
  | .map entries => actsOfEntries entries
  | .member base _ => base.acts
  | .index base key => base.acts ++ key.acts
  | .call name args => .call name :: actsOfItems args
  | .unary _ operand => operand.acts
  | .binary _ left right => left.acts ++ right.acts
  | .logical _ left right => left.acts ++ right.acts

def Expr.actsOfItems : List Expr → List Act
  | [] => []
  | item :: rest => item.acts ++ actsOfItems rest

def Expr.actsOfEntries : List (String × Expr) → List Act
  | [] => []
  | (_, item) :: rest => item.acts ++ actsOfEntries rest

end

def Accessor.acts : Accessor → List Act
  | member _ => []
  | index key => key.acts

def Binding.acts (b : Binding) : List Act :=
  (b.init.map Expr.acts).getD []

/-- The act of assigning to a place: `change` of its root if it lies inside a value, and
none otherwise. -/
def Place.acts (target : Place) : List Act :=
  if target.path.isEmpty then [] else [.change target.root]

mutual

/-- The `Act`s of a statement, inner statements included. -/
def Stmt.acts : Stmt → List Act
  | .declare b => b.acts
  | .assign target _ value =>
    target.acts ++ target.path.flatMap Accessor.acts ++ value.acts
  | .branch condition yes no => condition.acts ++ actsOfBody yes ++ actsOfBody no
  | .loop condition body => condition.acts ++ actsOfBody body
  | .block body => actsOfBody body
  | .leave | .again | .result none => []
  | .result (some value) => value.acts
  | .fail value => value.acts
  | .evaluate value => value.acts

def Stmt.actsOfBody : List Stmt → List Act
  | [] => []
  | stmt :: rest => stmt.acts ++ actsOfBody rest

end

def Program.acts (p : Program) : List Act :=
  p.globals.flatMap Binding.acts ++
    p.functions.toList.flatMap fun (_, f) => Stmt.actsOfBody f.body

/-! ## Parts of programs -/

/-- `chain` takes an expression apart without adding or dropping an `Act`. -/
theorem Expr.mem_acts_chain {act : Act} (e : Expr) (path : List Accessor) :
    act ∈ (e.chain path).1.acts ∨ act ∈ (e.chain path).2.flatMap Accessor.acts ↔
      act ∈ e.acts ∨ act ∈ path.flatMap Accessor.acts := by
  fun_induction Expr.chain path e with
  | case1 path base name ih =>
    simp only [ih, Expr.acts, List.flatMap_cons, Accessor.acts, List.nil_append]
  | case2 path base key ih =>
    simp only [ih, Expr.acts, List.flatMap_cons, Accessor.acts, List.mem_append, or_assoc]
  | case3 path root => rfl

theorem Program.mem_acts_of_function {p : Program} {name : String} {f : Function}
    (found : p.functions[name]? = some f) {act : Act} (mem : act ∈ Stmt.actsOfBody f.body) :
    act ∈ p.acts := by
  have listed : (name, f) ∈ p.functions.toList :=
    Std.ExtTreeMap.mem_toList_iff_getElem?_eq_some.2 found
  exact List.mem_append_right _ (List.mem_flatMap.2 ⟨(name, f), listed, mem⟩)

/-! ## Names -/

mutual

/-- A name that is called is one of the `names` of the expression. -/
theorem Expr.mem_names_of_call {name : String} :
    ∀ e : Expr, .call name ∈ e.acts → name ∈ e.names
  | .null, h | .bool _, h | .int _, h | .str _, h | .ident _, h => by simp [Expr.acts] at h
  | .list items, h => mem_namesOfItems_of_call items (by simpa [Expr.acts] using h)
  | .map entries, h => mem_namesOfEntries_of_call entries (by simpa [Expr.acts] using h)
  | .member base _, h => mem_names_of_call base (by simpa [Expr.acts] using h)
  | .index base key, h => by
    simp only [Expr.acts, List.mem_append, Expr.names] at h ⊢
    exact h.imp (mem_names_of_call base) (mem_names_of_call key)
  | .call callee args, h => by
    simp only [Expr.acts, List.mem_cons, Act.call.injEq, Expr.names] at h ⊢
    exact h.imp id (mem_namesOfItems_of_call args)
  | .unary _ operand, h => mem_names_of_call operand (by simpa [Expr.acts] using h)
  | .binary _ left right, h => by
    simp only [Expr.acts, List.mem_append, Expr.names] at h ⊢
    exact h.imp (mem_names_of_call left) (mem_names_of_call right)
  | .logical _ left right, h => by
    simp only [Expr.acts, List.mem_append, Expr.names] at h ⊢
    exact h.imp (mem_names_of_call left) (mem_names_of_call right)

theorem Expr.mem_namesOfItems_of_call {name : String} :
    ∀ items : List Expr, .call name ∈ actsOfItems items → name ∈ namesOfItems items
  | [], h => by simp [Expr.actsOfItems] at h
  | item :: rest, h => by
    simp only [Expr.actsOfItems, List.mem_append, Expr.namesOfItems] at h ⊢
    exact h.imp (mem_names_of_call item) (mem_namesOfItems_of_call rest)

theorem Expr.mem_namesOfEntries_of_call {name : String} :
    ∀ entries : List (String × Expr), .call name ∈ actsOfEntries entries →
      name ∈ namesOfEntries entries
  | [], h => by simp [Expr.actsOfEntries] at h
  | (_, item) :: rest, h => by
    simp only [Expr.actsOfEntries, List.mem_append, Expr.namesOfEntries] at h ⊢
    exact h.imp (mem_names_of_call item) (mem_namesOfEntries_of_call rest)

end

theorem Accessor.mem_names_of_call {name : String} (a : Accessor) (h : .call name ∈ a.acts) :
    name ∈ a.names := by
  cases a with
  | member _ => simp [Accessor.acts] at h
  | index key => exact key.mem_names_of_call h

theorem Binding.mem_names_of_call {name : String} (b : Binding) (h : .call name ∈ b.acts) :
    name ∈ b.names := by
  unfold Binding.acts Binding.names at *
  cases hi : b.init with
  | none => simp [hi] at h
  | some e =>
    rw [hi] at h
    exact e.mem_names_of_call h

theorem Place.not_call_mem_acts {name : String} (target : Place) :
    .call name ∉ target.acts := by
  unfold Place.acts
  split <;> simp

mutual

theorem Stmt.mem_names_of_call {name : String} :
    ∀ stmt : Stmt, .call name ∈ stmt.acts → name ∈ stmt.names
  | .declare b, h => b.mem_names_of_call (by simpa [Stmt.acts] using h)
  | .assign target _ value, h => by
    simp only [Stmt.acts, List.mem_append, List.mem_flatMap, Stmt.names, List.mem_cons] at h ⊢
    rcases h with (own | ⟨a, mem, inside⟩) | inside
    · exact absurd own target.not_call_mem_acts
    · exact .inl (.inr ⟨a, mem, a.mem_names_of_call inside⟩)
    · exact .inr (value.mem_names_of_call inside)
  | .branch condition yes no, h => by
    simp only [Stmt.acts, List.mem_append, Stmt.names] at h ⊢
    exact h.imp (Or.imp condition.mem_names_of_call (mem_namesOfBody_of_call yes))
      (mem_namesOfBody_of_call no)
  | .loop condition body, h => by
    simp only [Stmt.acts, List.mem_append, Stmt.names] at h ⊢
    exact h.imp condition.mem_names_of_call (mem_namesOfBody_of_call body)
  | .block body, h => mem_namesOfBody_of_call body (by simpa [Stmt.acts] using h)
  | .leave, h | .again, h | .result none, h => by simp [Stmt.acts] at h
  | .result (some value), h => value.mem_names_of_call (by simpa [Stmt.acts] using h)
  | .fail value, h => value.mem_names_of_call (by simpa [Stmt.acts] using h)
  | .evaluate value, h => value.mem_names_of_call (by simpa [Stmt.acts] using h)

theorem Stmt.mem_namesOfBody_of_call {name : String} :
    ∀ body : List Stmt, .call name ∈ actsOfBody body → name ∈ namesOfBody body
  | [], h => by simp [Stmt.actsOfBody] at h
  | stmt :: rest, h => by
    simp only [Stmt.actsOfBody, List.mem_append, Stmt.namesOfBody] at h ⊢
    exact h.imp (mem_names_of_call stmt) (mem_namesOfBody_of_call rest)

end

theorem Program.mem_names_of_call {p : Program} {name : String} (h : .call name ∈ p.acts) :
    name ∈ p.names := by
  simp only [Program.acts, Program.names, List.mem_append, List.mem_flatMap] at h ⊢
  rcases h with ⟨b, declared, inside⟩ | ⟨f, listed, inside⟩
  · exact .inl ⟨b, declared, b.mem_names_of_call inside⟩
  · exact .inr ⟨f, listed, Stmt.mem_namesOfBody_of_call f.2.body inside⟩

end LedgerScript.Script
