import LedgerScript.Proofs.Script.Layout
import LedgerScript.Proofs.Script.Statements

/-!
# Reading programs back

The source of a well-formed program is parsed to the program again, when its blocks
and expressions may nest as deep as it has tokens.  Main statement: `parse_render`.
-/

namespace LedgerScript.Script

/-! ## Tokens of well-formed programs -/

/-- Every token is `legal`: it has a spelling. -/
def Legal (tokens : List Token) : Prop :=
  ∀ t ∈ tokens, t.legal = true

@[simp] theorem legal_nil : Legal [] := nofun

@[simp] theorem legal_cons {t : Token} {ts : List Token} :
    Legal (t :: ts) ↔ t.legal = true ∧ Legal ts := List.forall_mem_cons

@[simp] theorem legal_append {ts us : List Token} : Legal (ts ++ us) ↔ Legal ts ∧ Legal us :=
  List.forall_mem_append

@[simp] theorem legal_parens {ts : List Token} : Legal (parens ts) ↔ Legal ts := by
  simp [parens, Token.legal]

@[simp] theorem legal_braces {ts : List Token} : Legal (braces ts) ↔ Legal ts := by
  simp [braces, Token.legal]

@[simp] theorem legal_comma {α : Type} (rest : List α) : Legal (comma rest) := by
  cases rest <;> simp [comma, Token.legal]

@[simp] theorem legal_fitted {e : Expr} {rank : Nat} {ts : List Token} :
    Legal (e.fitted rank ts) ↔ Legal ts := by
  unfold Expr.fitted
  split
  · exact Iff.rfl
  · exact legal_parens

theorem Style.legal_key (style : Style) (key : String) :
    (style.key key).legal = true := by
  unfold Style.key
  split
  · next bare => exact ((Bool.and_eq_true _ _).mp bare).2
  · rfl

mutual

theorem Expr.legal (style : Style) :
    ∀ e : Expr, e.wellFormed = true → Legal (e.tokens style)
  | .null, _ | .bool _, _ | .str _, _ => by simp [Token.legal]
  | .int _, h => by simpa [Token.legal] using of_decide_eq_true h
  | .ident _, h => by simpa [Token.legal, Expr.wellFormed] using h
  | .list items, h => by simpa [Token.legal] using Expr.legal_items style items h
  | .map entries, h => by simpa using Expr.legal_entries style entries h
  | .member base name, h => by
    obtain ⟨first, named⟩ := (Bool.and_eq_true _ _).mp h
    simpa [Token.legal] using ⟨Expr.legal style base first, named⟩
  | .index base key, h => by
    obtain ⟨first, second⟩ := (Bool.and_eq_true _ _).mp h
    simpa [Token.legal] using ⟨Expr.legal style base first, Expr.legal style key second⟩
  | .call name args, h => by
    obtain ⟨named, given⟩ := (Bool.and_eq_true _ _).mp h
    simpa [Token.legal] using ⟨named, Expr.legal_items style args given⟩
  | .unary _ operand, h => by simpa [Token.legal] using Expr.legal style operand h
  | .binary _ left right, h | .logical _ left right, h => by
    obtain ⟨first, second⟩ := (Bool.and_eq_true _ _).mp h
    simpa [Token.legal] using ⟨Expr.legal style left first, Expr.legal style right second⟩

theorem Expr.legal_items (style : Style) :
    ∀ items : List Expr, Expr.itemsWellFormed items = true → Legal (Expr.tokensOfItems style items)
  | [], _ => legal_nil
  | item :: items, h => by
    obtain ⟨first, others⟩ := (Bool.and_eq_true _ _).mp h
    simpa using ⟨Expr.legal style item first, Expr.legal_items style items others⟩

theorem Expr.legal_entries (style : Style) :
    ∀ entries : List (String × Expr), Expr.entriesWellFormed entries = true →
      Legal (Expr.tokensOfEntries style entries)
  | [], _ => legal_nil
  | (key, value) :: entries, h => by
    obtain ⟨first, others⟩ := (Bool.and_eq_true _ _).mp h
    refine legal_cons.2 ⟨style.legal_key key, legal_cons.2 ⟨rfl, ?_⟩⟩
    simpa using ⟨Expr.legal style value first, Expr.legal_entries style entries others⟩

end

theorem Binding.legal (style : Style) {b : Binding} (h : b.wellFormed = true) :
    Legal (b.tokens style) := by
  obtain ⟨name, init, constant⟩ := b
  obtain ⟨named, valued⟩ := (Bool.and_eq_true _ _).mp h
  cases init with
  | none => simpa [Binding.tokens, Token.legal] using named
  | some e => simpa [Binding.tokens, Token.legal] using ⟨named, e.legal style valued⟩

theorem Expr.legal_standing (style : Style) {e : Expr} (h : e.wellFormed = true) :
    Legal (e.standing style) := by
  unfold standing
  split
  · exact legal_parens.2 (e.legal style h)
  · exact e.legal style h

mutual

theorem Stmt.legal (style : Style) {inLoop : Bool} :
    ∀ s : Stmt, s.wellFormed inLoop = true → Legal (s.tokens style)
  | .declare _, h => by simpa using Binding.legal style h
  | .assign target _ value, h => by
    obtain ⟨first, second⟩ := (Bool.and_eq_true _ _).mp h
    simpa [Token.legal] using ⟨target.expr.legal style first, value.legal style second⟩
  | .branch test yes no, h => by
    obtain ⟨h, third⟩ := (Bool.and_eq_true _ _).mp h
    obtain ⟨first, second⟩ := (Bool.and_eq_true _ _).mp h
    simpa [Token.legal] using
      ⟨test.legal style first, Stmt.legal_body style yes second, Stmt.legal_else style no third⟩
  | .loop test body, h => by
    obtain ⟨first, second⟩ := (Bool.and_eq_true _ _).mp h
    simpa [Token.legal] using ⟨test.legal style first, Stmt.legal_body style body second⟩
  | .block body, h => by simpa using Stmt.legal_body style body h
  | .leave, _ | .again, _ | .result none, _ => by simp [Token.legal]
  | .result (some value), h | .fail value, h => by
    simpa [Token.legal] using value.legal style h
  | .evaluate value, h => by simpa [Token.legal] using Expr.legal_standing style h

theorem Stmt.legal_body (style : Style) {inLoop : Bool} :
    ∀ body : List Stmt, Stmt.bodyWellFormed inLoop body = true →
      Legal (Stmt.tokensOfBody style body)
  | [], _ => legal_nil
  | s :: body, h => by
    obtain ⟨first, others⟩ := (Bool.and_eq_true _ _).mp h
    simpa using ⟨Stmt.legal style s first, Stmt.legal_body style body others⟩

theorem Stmt.legal_else (style : Style) {inLoop : Bool} :
    ∀ no : List Stmt, Stmt.bodyWellFormed inLoop no = true → Legal (Stmt.tokensOfElse style no)
  | [], _ => legal_nil
  | s :: more, h => by
    obtain ⟨first, others⟩ := (Bool.and_eq_true _ _).mp h
    have first := Stmt.legal style s first
    have others := Stmt.legal_body style more others
    rw [Stmt.tokensOfElse]
    split <;> simp [Token.legal, first, others]

end

theorem legal_names {names : List String} (h : names.all isName = true) :
    Legal (tokensOfNames names) := by
  induction names with
  | nil => exact legal_nil
  | cons name names ih =>
    rw [List.all_cons, Bool.and_eq_true] at h
    simpa [tokensOfNames, Token.legal] using ⟨h.1, ih h.2⟩

theorem Function.legal (style : Style) {f : Function} (h : f.wellFormed = true) :
    Legal (f.tokens style) := by
  simp only [Function.wellFormed, Bool.and_eq_true] at h
  obtain ⟨⟨⟨named, params⟩, -⟩, body⟩ := h
  simpa [Function.tokens, Token.legal] using
    ⟨named, legal_names params, Stmt.legal_body style f.body body⟩

/-- The tokens of a `WellFormed` program are `Legal`. -/
theorem Program.WellFormed.legal {p : Program} (h : p.WellFormed) (style : Style) :
    Legal (p.tokens style) := by
  refine legal_append.2 ⟨fun t mem => ?_, fun t mem => ?_⟩
  · obtain ⟨⟨name, f⟩, listed, mem⟩ := List.mem_flatMap.1 mem
    have found := Std.ExtTreeMap.mem_toList_iff_getElem?_eq_some.1 listed
    exact Function.legal style (h.functions found).2 t mem
  · obtain ⟨b, listed, mem⟩ := List.mem_flatMap.1 mem
    exact Binding.legal style (h.globals b listed) t mem

namespace Parser

variable {style : Style} {scope : Scope} {rest : List Token}

/-! ## Functions -/

theorem reads_params {names seen : List String} {n : Nat} (some : names ≠ [])
    (distinct : (seen ++ names).Nodup) (enough : (tokensOfNames names).length < n)
    (stops : rest.head? ≠ .some (.symbol .comma)) :
    Reads (params seen n) (tokensOfNames names) (seen ++ names) rest := by
  induction names generalizing seen n with
  | nil => exact absurd rfl some
  | cons name names ih =>
    obtain ⟨m, rfl⟩ := Nat.exists_eq_succ_of_ne_zero (Nat.ne_zero_of_lt enough)
    have grown : (seen ++ [name] ++ names).Nodup := by
      rwa [List.append_assoc, List.singleton_append]
    have fresh : name ∉ seen := fun mem =>
      (List.nodup_append.1 distinct).2.2 name mem name (List.mem_cons_self ..) rfl
    have entry {ts : List Token} {y : Parse (List String)}
        (h : Leads (do if ← eat .comma then params (seen ++ [name]) m else return seen ++ [name])
          ts rest y) : Leads (params seen (m + 1)) (.ident name :: ts) rest y := by
      refine .ident ?_
      rw [if_neg fresh]
      exact h
    cases names with
    | nil => exact entry <| .skip stops <| .refl _ _
    | cons name' names =>
      have whole : tokensOfNames (name :: name' :: names) =
          .ident name :: .symbol .comma :: tokensOfNames (name' :: names) := rfl
      have fewer : (tokensOfNames (name' :: names)).length < m := by
        rw [whole, List.length_cons, List.length_cons] at enough
        omega
      have others := ih (List.cons_ne_nil _ _) grown fewer
      rw [List.append_assoc, List.singleton_append] at others
      rw [whole]
      exact entry <| .eat others

theorem reads_function {f : Function} (valid : f.wellFormed = true) (top : scope.inLoop = false)
    (fits : (f.tokens style).length ≤ scope.room) :
    Reads (function scope) (f.tokens style) f rest := by
  obtain ⟨name, names, body⟩ := f
  simp only [Function.wellFormed, Bool.and_eq_true, decide_eq_true_eq] at valid
  obtain ⟨⟨-, distinct⟩, valid⟩ := valid
  rw [← top] at valid
  simp only [Function.tokens, braces, parens, List.length_cons, List.length_append] at fits
  have block {size : Nat} (small : (Stmt.tokensOfBody style body).length ≤ size) :
      Reads (block (statement size) scope) (braces (Stmt.tokensOfBody style body)) body rest :=
    reads_block (Stmt.legible_body style body) valid small (by omega)
  have ends : Leads (do
      expect .rightParen
      let inner ← Parser.block (statement (← turns)) scope
      return (⟨name, names, inner⟩ : Function))
      (.symbol .rightParen :: braces (Stmt.tokensOfBody style body)) rest
      (pure ⟨name, names, body⟩) := by
    refine .expect <| .turns fun n enough => .last (block ?_)
    simp only [braces, List.length_cons, List.length_append] at enough
    omega
  have whole : Function.tokens style ⟨name, names, body⟩ = .keyword .function :: .ident name ::
      .symbol .leftParen :: (tokensOfNames names ++
        (.symbol .rightParen :: braces (Stmt.tokensOfBody style body))) := by
    simp [Function.tokens, parens]
  rw [whole]
  refine .advance <| .ident <| .expect <| ?_
  cases names with
  | nil => exact .at? rfl <| .first (.refl (pure []) _) ends
  | cons first names =>
    refine .not_at? (by rintro ⟨⟩) <| .turns fun n enough => .bind ?_ ends
    rw [List.append_assoc, List.length_append] at enough
    exact reads_params (List.cons_ne_nil _ _) distinct (by omega) (by rintro ⟨⟩)

/-! ## Declarations -/

theorem reads_globals {gs : List Binding} {program : Program} {n : Nat}
    (valid : ∀ b ∈ gs, b.wellFormed = true) (apart : ∀ b ∈ gs, b.name ∉ program.functions)
    (distinct : ((program.globals ++ gs).map Binding.name).Nodup)
    (fits : (gs.flatMap (Binding.tokens style)).length ≤ scope.room)
    (enough : (gs.flatMap (Binding.tokens style)).length < n) :
    Reads (declarations scope n program) (gs.flatMap (Binding.tokens style))
      { program with globals := program.globals ++ gs } [] := by
  induction gs generalizing program n with
  | nil =>
    obtain ⟨m, rfl⟩ := Nat.exists_eq_succ_of_ne_zero (Nat.ne_of_gt enough)
    rw [List.append_nil]
    exact .position fun _ => .peek <| .refl _ _
  | cons b gs ih =>
    obtain ⟨m, rfl⟩ := Nat.exists_eq_succ_of_ne_zero (Nat.ne_zero_of_lt enough)
    obtain ⟨first, valid⟩ := List.forall_mem_cons.1 valid
    obtain ⟨other, apart⟩ := List.forall_mem_cons.1 apart
    rw [List.flatMap_cons, List.length_append] at fits enough
    have fresh : program.declares b.name = false := by
      rw [List.map_append, List.nodup_append] at distinct
      refine Program.declares_eq_false.2 ⟨other, fun g mem same => ?_⟩
      exact distinct.2.2 _ (List.mem_map_of_mem mem) _ (List.mem_cons_self ..) same
    have added (start : Position) {rest : List Token} : Reads (addGlobal program start b) []
        { program with globals := program.globals ++ [b] } rest := by
      unfold addGlobal
      rw [fresh]
      exact .refl _ _
    have nonempty : 0 < (b.tokens style).length := Nat.succ_pos _
    have others : Reads (declarations scope m { program with globals := program.globals ++ [b] })
        (gs.flatMap (Binding.tokens style))
        { program with globals := program.globals ++ b :: gs } [] := by
      have grown : program.globals ++ b :: gs = program.globals ++ [b] ++ gs := by
        rw [List.append_assoc, List.singleton_append]
      rw [grown] at distinct ⊢
      exact ih valid apart distinct (by omega) (by omega)
    have read : Reads (binding scope b.constant) (b.tokens style) b
        (gs.flatMap (Binding.tokens style) ++ []) := reads_binding first (by omega)
    rw [List.flatMap_cons]
    refine .position fun start => .peek ?_
    obtain ⟨name, init, constant⟩ := b
    cases constant with
    | true => exact .bind read <| .first (added start) others
    | false => exact .bind read <| .first (added start) others

theorem reads_declarations {fs : List (String × Function)} {gs : List Binding}
    {table : FunctionTable} {n : Nat} (top : scope.inLoop = false)
    (named : ∀ kf ∈ fs, kf.2.name = kf.1 ∧ kf.2.wellFormed = true)
    (separate : fs.Pairwise fun a b => a.1 ≠ b.1) (fresh : ∀ kf ∈ fs, kf.1 ∉ table)
    (valid : ∀ b ∈ gs, b.wellFormed = true) (apart : ∀ b ∈ gs, b.name ∉ table.insertMany fs)
    (distinct : (gs.map Binding.name).Nodup)
    (fits : (fs.flatMap (fun kf => kf.2.tokens style) ++
      gs.flatMap (Binding.tokens style)).length ≤ scope.room)
    (enough : (fs.flatMap (fun kf => kf.2.tokens style) ++
      gs.flatMap (Binding.tokens style)).length < n) :
    Reads (declarations scope n { functions := table })
      (fs.flatMap (fun kf => kf.2.tokens style) ++ gs.flatMap (Binding.tokens style))
      { functions := table.insertMany fs, globals := gs } [] := by
  induction fs generalizing table n with
  | nil =>
    rw [Std.ExtTreeMap.insertMany_nil] at apart ⊢
    exact reads_globals valid apart distinct fits enough
  | cons kf fs ih =>
    obtain ⟨name, f⟩ := kf
    obtain ⟨m, rfl⟩ := Nat.exists_eq_succ_of_ne_zero (Nat.ne_zero_of_lt enough)
    obtain ⟨⟨same, whole⟩, others⟩ := List.forall_mem_cons.1 named
    obtain rfl : f.name = name := same
    obtain ⟨first, separate⟩ := List.pairwise_cons.1 separate
    obtain ⟨free, fresh⟩ := List.forall_mem_cons.1 fresh
    rw [Std.ExtTreeMap.insertMany_cons] at apart ⊢
    rw [List.flatMap_cons, List.append_assoc] at fits enough ⊢
    rw [List.length_append] at fits enough
    dsimp only at fits enough ⊢
    have unseen : ∀ kf ∈ fs, kf.1 ∉ table.insert f.name f := by
      intro kf mem inside
      rw [Std.ExtTreeMap.mem_insert] at inside
      rcases inside with same | old
      · exact first kf mem (Std.compare_eq_iff_eq.1 same)
      · exact fresh kf mem old
    have added (start : Position) {rest : List Token} :
        Reads (addFunction { functions := table } start f) []
          { functions := table.insert f.name f } rest := by
      unfold addFunction
      rw [Program.declares_eq_false.2 ⟨free, fun b mem => absurd mem List.not_mem_nil⟩]
      exact .refl _ _
    have nonempty : 0 < (f.tokens style).length := Nat.succ_pos _
    exact .position fun start => .peek <| .bind (reads_function whole top (by omega)) <|
      .first (added start) <| ih others separate unseen apart (by omega) (by omega)

end Parser

/-- A table of functions is made of its entries by `insertMany`. -/
theorem insertMany_toList (table : FunctionTable) :
    (∅ : FunctionTable).insertMany table.toList = table := by
  refine Std.ExtTreeMap.ext_getElem? fun name => ?_
  cases found : table[name]? with
  | some f =>
    exact Std.ExtTreeMap.getElem?_insertMany_list_of_mem (by simp)
      Std.ExtTreeMap.distinct_keys_toList (Std.ExtTreeMap.mem_toList_iff_getElem?_eq_some.2 found)
  | none =>
    have absent : (table.toList.map Prod.fst).contains name = false := by
      rw [Bool.eq_false_iff]
      intro listed
      obtain ⟨⟨_, f⟩, mem, rfl⟩ := List.mem_map.1 (List.contains_iff_mem.1 listed)
      rw [Std.ExtTreeMap.mem_toList_iff_getElem?_eq_some.1 mem] at found
      cases found
    rw [Std.ExtTreeMap.getElem?_insertMany_list_of_contains_eq_false absent]
    exact Std.ExtTreeMap.getElem?_empty

/-- **Parsing inverts rendering.**  `parse` makes of the `render`ed source of a
`WellFormed` program exactly this program, whatever the style, when blocks and expressions
may nest as deep as it has tokens. -/
theorem parse_render (style : Style) {p : Program} (h : p.WellFormed) {maxDepth : Nat}
    (deep : (p.tokens style).length ≤ maxDepth) : parse (p.render style) maxDepth = .ok p := by
  obtain ⟨tokens, cut, whole⟩ := tokenize_layout (h.legal style)
  have enough : (p.tokens style).length < tokens.placed.length + 1 := by
    rw [← whole, Tokens.list, List.length_map]
    exact Nat.lt_succ_self _
  have named : ∀ kf ∈ p.functions.toList, kf.2.name = kf.1 ∧ kf.2.wellFormed = true :=
    fun kf mem => h.functions (Std.ExtTreeMap.mem_toList_iff_getElem?_eq_some.1 mem)
  have separate : p.functions.toList.Pairwise fun a b => a.1 ≠ b.1 :=
    Std.ExtTreeMap.distinct_keys_toList.imp fun apart same => apart (Std.compare_eq_iff_eq.2 same)
  have table := insertMany_toList p.functions
  have read : Parser.Reads (Parser.declarations ⟨maxDepth, maxDepth, false⟩
      (tokens.placed.length + 1) {}) (p.tokens style)
      { functions := (∅ : FunctionTable).insertMany p.functions.toList, globals := p.globals } [] :=
    Parser.reads_declarations rfl named separate (fun _ _ => Std.ExtTreeMap.not_mem_empty)
      h.globals (table.symm ▸ h.apart) h.distinct deep enough
  rw [table] at read
  have left : tokens.list = p.tokens style ++ [] := by rw [whole, List.append_nil]
  obtain ⟨next, ran, -⟩ := read left
  unfold parse Program.render
  rw [cut]
  change (Parser.declarations _ _ _ tokens >>= fun done => pure done.1) = _
  rw [ran]
  rfl

/-! ### A program with a loop -/

namespace Countdown

/-- Counts down by one, and leaves out what is odd. -/
def countdown : Function where
  name := "countdown"
  params := ["n", "log"]
  body := [
    .loop (.binary .gt (.ident "n") (.int 0)) [
      .assign ⟨"n", []⟩ .sub (.int 1),
      .branch (.unary .not (.binary .eq (.binary .rem (.ident "n") (.int 2)) (.int 0))) [.again]
        [.branch (.logical .or (.ident "log") .null) [.leave] []],
      .assign ⟨"log", [.member "last", .index (.str "n\n")]⟩ .set (.ident "n")],
    .evaluate (.member (.map [("left", .list [.ident "n"])]) "left"),
    .result (some (.binary .sub (.ident "n") (.binary .sub (.int 2) (.int 1))))]

def program : Program where
  functions := (∅ : FunctionTable).insert "countdown" countdown
  globals := [⟨"start", some (.call "countdown" [.int 3, .map []]), true⟩, ⟨"spare", none, false⟩]

theorem wellFormed : program.WellFormed where
  functions name f found := by
    change ((∅ : FunctionTable).insert "countdown" countdown)[name]? = some f at found
    rw [Std.ExtTreeMap.getElem?_insert] at found
    split at found
    · next same =>
      cases found
      exact ⟨Std.compare_eq_iff_eq.1 same, by decide⟩
    · rw [Std.ExtTreeMap.getElem?_empty] at found
      cases found
  globals := by decide
  apart b mem inside := by
    change b.name ∈ (∅ : FunctionTable).insert "countdown" countdown at inside
    rw [Std.ExtTreeMap.mem_insert] at inside
    rcases inside with same | none
    · have other : ∀ b ∈ program.globals, b.name ≠ "countdown" := by decide
      exact other b mem (Std.compare_eq_iff_eq.1 same).symm
    · exact Std.ExtTreeMap.not_mem_empty none
  distinct := by decide

theorem parse_rendered :
    program.WellFormed ∧ (program.tokens ⟨true, true⟩).length ≤ 128 ∧
      parse (program.render ⟨true, true⟩) 128 = .ok program := by
  have deep : (program.tokens ⟨true, true⟩).length ≤ 128 := by decide
  exact ⟨wellFormed, deep, parse_render _ wellFormed deep⟩

end Countdown

end LedgerScript.Script
