import LedgerScript.Proofs.Script.Leads
import LedgerScript.Proofs.Script.Rendering

/-!
# Reading expressions back

An expression that is written out is read back wherever an expression of its rank
may stand (`Expr.Legible`), as long as what follows does not bind tightly enough to
make it a part of something larger (`Stops`).  Main statement: `Expr.legible`.
-/

namespace LedgerScript.Script

/-! ## What follows an expression -/

/-- `Stops rank rest`: what follows joins at `rank` or more loosely, if it joins anything. -/
def Stops (rank : Nat) (rest : List Token) : Prop :=
  ∀ ⦃s : Symbol⦄ ⦃joint : Nat⦄, rest.head? = some (.symbol s) → s.joint = some joint → rank ≤ joint

theorem Stops.mono {low high : Nat} {rest : List Token} (h : Stops high rest) (le : low ≤ high) :
    Stops low rest := fun _ _ ahead joint => Nat.le_trans le (h ahead joint)

theorem stops_zero (rest : List Token) : Stops 0 rest := fun _ _ _ _ => Nat.zero_le _

theorem stops_joint {s : Symbol} {rank : Nat} (h : s.joint = some rank) (rest : List Token) :
    Stops rank (.symbol s :: rest) := by
  intro s' joint ahead joined
  cases ahead
  rw [h] at joined
  cases joined
  exact Nat.le_refl _

/-- A symbol without a `joint` stops every expression. -/
theorem stops_symbol {s : Symbol} (h : s.joint = none) (rank : Nat) (rest : List Token) :
    Stops rank (.symbol s :: rest) := by
  intro s' joint ahead joined
  cases ahead
  rw [h] at joined
  cases joined

theorem BinaryOp.joint_symbol (op : BinaryOp) : op.symbol.joint = some op.rank := by
  cases op <;> rfl

theorem LogicalOp.joint_symbol (op : LogicalOp) : op.symbol.joint = some op.rank := by
  cases op <;> rfl

theorem BinaryOp.rank_bounds (op : BinaryOp) : 2 ≤ op.rank ∧ op.rank ≤ 5 := by
  cases op <;> decide

theorem LogicalOp.rank_bounds (op : LogicalOp) : 6 ≤ op.rank ∧ op.rank ≤ 7 := by
  cases op <;> decide

theorem Expr.rank_le (e : Expr) : e.rank ≤ 7 := by
  cases e with
  | unary => exact Nat.le_of_ble_eq_true rfl
  | binary op => exact Nat.le_trans op.rank_bounds.2 (by decide)
  | logical op => exact op.rank_bounds.2
  | _ => exact Nat.zero_le _

/-! ## Where an expression begins -/

/-- The first token is of a kind. -/
def StartsIn (kind : Token → Bool) (tokens : List Token) : Prop :=
  ∃ t ts, tokens = t :: ts ∧ kind t = true

namespace StartsIn

variable {kind : Token → Bool} {tokens : List Token}

theorem append (h : StartsIn kind tokens) (more : List Token) : StartsIn kind (tokens ++ more) := by
  obtain ⟨t, ts, rfl, first⟩ := h
  exact ⟨t, ts ++ more, rfl, first⟩

theorem length_pos (h : StartsIn kind tokens) : 0 < tokens.length := by
  obtain ⟨t, ts, rfl, -⟩ := h
  exact Nat.succ_pos _

/-- No token of another kind is next. -/
theorem head?_ne (h : StartsIn kind tokens) {t : Token} (other : kind t = false) :
    tokens.head? ≠ some t := by
  obtain ⟨t', ts, rfl, first⟩ := h
  rintro ⟨⟩
  rw [first] at other
  cases other

end StartsIn

/-- `t.opens`: an expression may begin with `t`. -/
def Token.opens : Token → Bool
  | ident _ | int _ | str _ => true
  | keyword .trueValue | keyword .falseValue | keyword .nullValue => true
  | symbol .leftParen | symbol .leftBracket | symbol .leftBrace => true
  | symbol .bang | symbol .minus => true
  | _ => false

/-- The tokens begin like an expression. -/
abbrev Opens (tokens : List Token) : Prop := StartsIn Token.opens tokens

theorem opens_parens (inner : List Token) : Opens (parens inner) := ⟨_, _, rfl, rfl⟩

theorem Opens.fitted {tokens : List Token} (h : Opens tokens) (e : Expr) (rank : Nat) :
    Opens (e.fitted rank tokens) := by
  unfold Expr.fitted
  split
  · exact h
  · exact opens_parens tokens

theorem Expr.opens (style : Style) : ∀ e : Expr, Opens (e.tokens style)
  | .null => ⟨_, _, rfl, rfl⟩
  | .bool true => ⟨_, _, rfl, rfl⟩
  | .bool false => ⟨_, _, rfl, rfl⟩
  | .int _ => ⟨_, _, rfl, rfl⟩
  | .str _ => ⟨_, _, rfl, rfl⟩
  | .ident _ => ⟨_, _, rfl, rfl⟩
  | .list _ => ⟨_, _, rfl, rfl⟩
  | .map _ => ⟨_, _, rfl, rfl⟩
  | .member base _ => ((base.opens style).fitted base 0).append _
  | .index base _ => ((base.opens style).fitted base 0).append _
  | .call _ _ => ⟨_, _, rfl, rfl⟩
  | .unary .not _ => ⟨_, _, rfl, rfl⟩
  | .unary .neg _ => ⟨_, _, rfl, rfl⟩
  | .binary op left _ => ((left.opens style).fitted left op.rank).append _
  | .logical op left _ => ((left.opens style).fitted left op.rank).append _

namespace Parser

variable {α : Type} {ts us rest : List Token} {s : Symbol}

/-! ## Levels of operators -/

section Level

variable {ops : List (Symbol × α)} {op : α} {join : α → Expr → Expr → Expr}
  {operand : Parse Expr} {left right : Expr}

theorem leads_joined (found : ops.lookup s = some op) (h : Reads operand us right rest)
    (n : Nat) : Leads (joined ops join operand (n + 1) left) (.symbol s :: us) rest
      (joined ops join operand n (join op left right)) :=
  .operator found <| .advance <| .last h

theorem reads_joined (none : ∀ s, rest.head? = some (.symbol s) → ops.lookup s = none) (n : Nat) :
    Reads (joined ops join operand n left) [] left rest := by
  cases n with
  | zero => exact .refl _ _
  | succ n => exact .no_operator none (.refl _ _)

end Level

/-- The operators of a rank. -/
def row (rank : Nat) : List (Symbol × BinaryOp) := binaryLevels.getD (rank - 2) []

/-- What operators of a rank join behind an expression. -/
def climb (rank : Nat) (operand : Parse Expr) : Nat → Expr → Parse Expr :=
  if rank ≤ 5 then joined (row rank) .binary operand
  else if rank = 6 then joined [(.andAnd, LogicalOp.and)] .logical operand
  else joined [(.orOr, LogicalOp.or)] .logical operand

/-- Reads expressions up to a rank. -/
def reader (unary : Parse Expr) : Nat → Parse Expr
  | 0 | 1 => unary
  | rank + 2 => do
    let left ← reader unary (rank + 1)
    climb (rank + 2) (reader unary (rank + 1)) (← turns) left

theorem expr_succ (limit room : Nat) : expr limit (room + 1) = reader (unary limit room) 7 := rfl

/-- What an expression that `reader` has read may grow to within a rank. -/
def loop (limit room : Nat) : (rank : Nat) → Nat → Expr → Parse Expr
  | 0 => accesses (expr limit room)
  | 1 => fun _ e => pure e
  | rank + 2 => climb (rank + 2) (reader (unary limit room) (rank + 1))

theorem loop_eq {limit room rank : Nat} (low : 2 ≤ rank) :
    loop limit room rank = climb rank (reader (unary limit room) (rank - 1)) := by
  obtain ⟨k, rfl⟩ := Nat.exists_eq_add_of_le' low
  rfl

theorem lookup_row (op : BinaryOp) : (row op.rank).lookup op.symbol = some op := by
  cases op <;> rfl

theorem lookup_row_of_ne {rank : Nat} (low : 2 ≤ rank) (high : rank ≤ 5)
    (other : s.joint ≠ some rank) : (row rank).lookup s = none := by
  have all : ∀ k : Fin 4, ∀ s, s.joint ≠ some (k.val + 2) → (row (k.val + 2)).lookup s = none := by
    intro k s
    revert k
    cases s <;> decide
  obtain ⟨k, rfl⟩ := Nat.exists_eq_add_of_le' low
  exact all ⟨k, by omega⟩ s other

theorem climb_binary (op : BinaryOp) (operand : Parse Expr) :
    climb op.rank operand = joined (row op.rank) .binary operand :=
  if_pos op.rank_bounds.2

theorem climb_logical (op : LogicalOp) (operand : Parse Expr) :
    climb op.rank operand = joined [(op.symbol, op)] .logical operand := by
  cases op <;> rfl

/-- `climb` gives `e` itself where an operator of another rank follows. -/
theorem reads_climb {rank : Nat} {operand : Parse Expr} {e : Expr} (low : 2 ≤ rank)
    (high : rank ≤ 7) (stops : Stops (rank + 1) rest) (n : Nat) :
    Reads (climb rank operand n e) [] e rest := by
  have other : ∀ s, rest.head? = some (.symbol s) → s.joint ≠ some rank :=
    fun s ahead joint => Nat.not_succ_le_self _ (stops ahead joint)
  by_cases binary : rank ≤ 5
  · rw [climb, if_pos binary]
    exact reads_joined (fun s ahead => lookup_row_of_ne low binary (other s ahead)) n
  · obtain ⟨op, rfl⟩ : ∃ op : LogicalOp, op.rank = rank := by
      by_cases six : rank = 6
      · exact ⟨.and, six.symm⟩
      · exact ⟨.or, show 7 = rank by omega⟩
    rw [climb_logical]
    refine reads_joined (fun s ahead => ?_) n
    have apart := other s ahead
    revert apart
    cases op <;> cases s <;> decide

/-! ## Accesses -/

section Accesses

variable {expr : Parse Expr} {base key : Expr} {name : String} {args : List Expr}

theorem leads_member (n : Nat) :
    Leads (accesses expr (n + 1) base) [.symbol .dot, .ident name] rest
      (accesses expr n (.member base name)) :=
  .eat <| .ident <| .refl _ _

theorem leads_index (h : Reads expr us key (.symbol .rightBracket :: rest)) (n : Nat) :
    Leads (accesses expr (n + 1) base)
      (.symbol .leftBracket :: (us ++ [.symbol .rightBracket])) rest
      (accesses expr n (.index base key)) := by
  have key : Reads expr us key ([.symbol .rightBracket] ++ rest) := h
  exact .skip_cons nofun <| .eat <| .bind key <| .expect <| .refl _ _

theorem leads_call (h : ∀ n, us.length < n → Reads (items expr .rightParen n)
    (us ++ [.symbol .rightParen]) args rest) (n : Nat) :
    Leads (accesses expr (n + 1) (.ident name)) (parens us) rest
      (accesses expr n (.call name args)) := by
  refine .skip_cons nofun <| .skip_cons nofun <| .at? rfl <| .advance <| .turns fun m enough => ?_
  have fewer : us.length < m := by
    simp only [List.length_append] at enough
    omega
  exact .last (h m fewer)

theorem reads_accesses (stops : Stops 1 rest) (n : Nat) :
    Reads (accesses expr n base) [] base rest := by
  have other : ∀ s : Symbol, s.joint = some 0 → ([] ++ rest).head? ≠ some (.symbol s) :=
    fun s joint ahead => Nat.not_succ_le_self _ (stops ahead joint)
  cases n with
  | zero => exact .refl _ _
  | succ n =>
    exact .skip (other _ rfl) <| .skip (other _ rfl) <| .not_at? (other _ rfl) <| .refl _ _

end Accesses

theorem reads_loop {limit room rank : Nat} {e : Expr} (high : rank ≤ 7)
    (stops : Stops (rank + 1) rest) (n : Nat) : Reads (loop limit room rank n e) [] e rest :=
  match rank with
  | 0 => reads_accesses stops n
  | 1 => .refl _ _
  | rank + 2 => reads_climb (Nat.le_add_left 2 rank) high stops n

/-- What `reader` has read at a rank may grow at the next one. -/
theorem continues_reader {limit room rank : Nat} {e : Expr}
    (h : Reads (reader (unary limit room) rank) ts e rest) :
    Continues (reader (unary limit room) (rank + 1)) ts rest
      fun n => loop limit room (rank + 1) n e := by
  intro input whole
  obtain ⟨next, ran, stays⟩ := h whole
  refine ⟨next.list.length + 1, next, ?_, stays, stays ▸ Nat.lt_succ_self _⟩
  cases rank with
  | zero => exact ran
  | succ rank => exact (bind_apply ran).trans (bind_apply (turns_apply next))

/-! ## Primary expressions -/

theorem unary_eq (limit room : Nat) :
    ∃ deeper, unary limit room = unaryWith deeper (expr limit room) := by
  cases room with
  | zero => exact ⟨_, rfl⟩
  | succ room => exact ⟨_, rfl⟩

/-- `accesses` may follow a primary expression. -/
theorem continues_primary {limit room : Nat} {e : Expr}
    (bang : (ts ++ rest).head? ≠ some (.symbol .bang))
    (minus : (ts ++ rest).head? ≠ some (.symbol .minus))
    (h : Reads (primary (expr limit room)) ts e rest) :
    Continues (unary limit room) ts rest fun n => accesses (expr limit room) n e := by
  intro input whole
  obtain ⟨deeper, same⟩ := unary_eq limit room
  have past : Leads (unary limit room) ts rest (do accesses (expr limit room) (← turns) e) := by
    rw [same]
    exact .skip bang <| .skip minus <| .last h
  obtain ⟨next, ran, stays⟩ := past whole
  exact ⟨_, next, ran.trans (bind_apply (turns_apply next)), stays, stays ▸ Nat.lt_succ_self _⟩

/-! ## Brackets -/

section Brackets

variable {expr : Parse Expr} {style : Style}

/-- `items` reads up to the closing bracket. -/
theorem reads_items {close : Symbol} {es : List Expr} (joins : close.joint = none)
    (shuts : Token.opens (.symbol close) = false) (ends : close ≠ .comma)
    (reads : ∀ e ∈ es, ∀ rest, Stops 8 rest → Reads expr (e.tokens style) e rest)
    {n : Nat} (enough : (Expr.tokensOfItems style es).length < n) :
    Reads (items expr close n) (Expr.tokensOfItems style es ++ [.symbol close]) es rest := by
  induction es generalizing n with
  | nil =>
    obtain ⟨m, rfl⟩ := Nat.exists_eq_succ_of_ne_zero (Nat.ne_of_gt enough)
    exact .eat <| .refl _ _
  | cons e es ih =>
    obtain ⟨m, rfl⟩ := Nat.exists_eq_succ_of_ne_zero (Nat.ne_zero_of_lt enough)
    obtain ⟨first, reads⟩ := List.forall_mem_cons.1 reads
    have inside (more : List Token) : (e.tokens style ++ more).head? ≠ some (.symbol close) :=
      ((e.opens style).append more).head?_ne shuts
    cases es with
    | nil =>
      have whole : Expr.tokensOfItems style [e] ++ [.symbol close] =
          e.tokens style ++ [.symbol close] := by
        simp [comma]
      rw [whole]
      refine .skip ?_ <| .bind (first _ (stops_symbol joins _ _)) <|
        .skip_cons (fun same => ends (Token.symbol.inj same)) <| .expect <| .refl _ _
      rw [List.append_assoc]
      exact inside _
    | cons e' es =>
      have whole : Expr.tokensOfItems style (e :: e' :: es) ++ [.symbol close] =
          e.tokens style ++ .symbol .comma ::
            (Expr.tokensOfItems style (e' :: es) ++ [.symbol close]) := by
        simp [comma]
      have fewer : (Expr.tokensOfItems style (e' :: es)).length < m := by
        have lengths := congrArg List.length whole
        simp only [List.length_append, List.length_cons] at lengths
        omega
      rw [whole]
      refine .skip ?_ <| .bind (first _ (stops_symbol rfl _ _)) <| .eat <| .last (ih reads fewer)
      rw [List.append_assoc]
      exact inside _

/-- `entries` reads up to the closing brace. -/
theorem reads_entries {kvs : List (String × Expr)}
    (reads : ∀ kv ∈ kvs, ∀ rest, Stops 8 rest → Reads expr (kv.2.tokens style) kv.2 rest)
    {n : Nat} (enough : (Expr.tokensOfEntries style kvs).length < n) :
    Reads (entries expr n) (Expr.tokensOfEntries style kvs ++ [.symbol .rightBrace]) kvs rest := by
  induction kvs generalizing n with
  | nil =>
    obtain ⟨m, rfl⟩ := Nat.exists_eq_succ_of_ne_zero (Nat.ne_of_gt enough)
    exact .eat <| .refl _ _
  | cons kv kvs ih =>
    obtain ⟨key, value⟩ := kv
    obtain ⟨m, rfl⟩ := Nat.exists_eq_succ_of_ne_zero (Nat.ne_zero_of_lt enough)
    obtain ⟨first, reads⟩ := List.forall_mem_cons.1 reads
    have entry {ts : List Token} {result : List (String × Expr)}
        (h : Leads (do
          expect .colon
          let value ← expr
          if ← eat .comma then return (key, value) :: (← entries expr m)
          expect .rightBrace .commaOrBrace
          return [(key, value)]) ts rest (pure result)) :
        Reads (entries expr (m + 1)) (style.key key :: ts) result rest := by
      unfold Style.key
      split
      · exact .skip_cons nofun <| .peek <| .advance h
      · exact .skip_cons nofun <| .peek <| .advance h
    cases kvs with
    | nil =>
      have whole : Expr.tokensOfEntries style [(key, value)] ++ [.symbol .rightBrace] =
          style.key key :: .symbol .colon :: (value.tokens style ++ [.symbol .rightBrace]) := by
        simp [comma]
      rw [whole]
      exact entry <| .expect <| .bind (first _ (stops_symbol rfl _ _)) <|
        .skip_cons nofun <| .expect <| .refl _ _
    | cons kv kvs =>
      have whole : Expr.tokensOfEntries style ((key, value) :: kv :: kvs) ++
          [.symbol .rightBrace] = style.key key :: .symbol .colon :: (value.tokens style ++
            .symbol .comma ::
              (Expr.tokensOfEntries style (kv :: kvs) ++ [.symbol .rightBrace])) := by
        simp [comma]
      have fewer : (Expr.tokensOfEntries style (kv :: kvs)).length < m := by
        have lengths := congrArg List.length whole
        simp only [List.length_append, List.length_cons] at lengths
        omega
      rw [whole]
      exact entry <| .expect <| .bind (first _ (stops_symbol rfl _ _)) <|
        .eat <| .last (ih reads fewer)

end Brackets

end Parser

/-! ## Legibility -/

/-- `e.Legible style`: the tokens of `e` are read back by `reader`, also as the left part
of a larger expression.  Each level of room that is taken has a token of its own, a
bracket or an operator, so the number of tokens is room enough. -/
def Expr.Legible (style : Style) (e : Expr) : Prop :=
  ∀ ⦃limit room rank : Nat⦄ ⦃rest : List Token⦄, rank ≤ 7 →
    (e.fitted rank (e.tokens style)).length ≤ room → Stops rank rest →
    Parser.Continues (Parser.reader (Parser.unary limit room) rank)
      (e.fitted rank (e.tokens style)) rest fun n => Parser.loop limit room rank n e

namespace Expr

open LedgerScript.Script.Parser (Reads Leads Continues reader loop)

variable {style : Style} {e : Expr} {limit room rank : Nat} {ts rest : List Token}

theorem fitted_of_le {tokens : List Token} (h : e.rank ≤ rank) : e.fitted rank tokens = tokens :=
  if_pos h

theorem fitted_of_lt {tokens : List Token} (h : rank < e.rank) :
    e.fitted rank tokens = parens tokens := if_neg (Nat.not_le_of_lt h)

theorem Legible.reads (h : e.Legible style) (high : rank ≤ 7)
    (fits : (e.fitted rank (e.tokens style)).length ≤ room) (stops : Stops (rank + 1) rest) :
    Reads (reader (Parser.unary limit room) rank) (e.fitted rank (e.tokens style)) e rest :=
  (h high fits (stops.mono (Nat.le_succ rank))).reads (Parser.reads_loop high stops)

/-- `Legible` for an expression on its own. -/
theorem Legible.reads_expr (h : e.Legible style) (fits : (e.tokens style).length < room)
    (stops : Stops 8 rest) : Reads (Parser.expr limit room) (e.tokens style) e rest := by
  obtain ⟨m, rfl⟩ := Nat.exists_eq_succ_of_ne_zero (Nat.ne_zero_of_lt fits)
  have whole : e.fitted 7 (e.tokens style) = e.tokens style := fitted_of_le e.rank_le
  have read : Reads (reader (Parser.unary limit m) 7) (e.fitted 7 (e.tokens style)) e rest :=
    h.reads (Nat.le_refl 7) (by rw [whole]; exact Nat.le_of_lt_succ fits) stops
  rw [whole] at read
  rw [Parser.expr_succ]
  exact read

/-- What may grow at a rank may grow at every looser one. -/
theorem continues_of_le {low : Nat}
    (h : ∀ rest, Stops low rest → Continues (reader (Parser.unary limit room) low) ts rest
      fun n => loop limit room low n e) (le : low ≤ rank) (high : rank ≤ 7)
    (stops : Stops rank rest) : Continues (reader (Parser.unary limit room) rank) ts rest
      fun n => loop limit room rank n e := by
  obtain ⟨k, rfl⟩ := Nat.exists_eq_add_of_le le
  clear le
  induction k generalizing rest with
  | zero => exact h rest stops
  | succ k ih =>
    have tighter := ih (Nat.le_of_succ_le high) (stops.mono (Nat.le_succ _))
    exact Parser.continues_reader
      (tighter.reads (Parser.reads_loop (Nat.le_of_succ_le high) stops))

/-- An expression between parentheses may stand at every rank. -/
theorem continues_parens
    (inner : ∀ rest, Stops 8 rest → Reads (Parser.expr limit room) ts e rest) (high : rank ≤ 7)
    (stops : Stops rank rest) :
    Continues (reader (Parser.unary limit room) rank) (parens ts) rest
      fun n => loop limit room rank n e := by
  refine continues_of_le (fun rest _ => ?_) (Nat.zero_le rank) high stops
  have inner : Reads (Parser.expr limit room) ts e ([.symbol .rightParen] ++ rest) :=
    inner _ (stops_symbol rfl _ _)
  exact Parser.continues_primary nofun nofun <|
    .peek <| .advance <| .bind inner <| .expect <| .refl _ _

/-- `e` is `Legible` if it is read at its own rank. -/
theorem legible_of_own
    (own : ∀ ⦃limit room : Nat⦄ ⦃rest : List Token⦄, (e.tokens style).length ≤ room →
      Stops e.rank rest → Continues (reader (Parser.unary limit room) e.rank) (e.tokens style) rest
        fun n => loop limit room e.rank n e) : e.Legible style := by
  have bare {limit room rank : Nat} {rest : List Token} (le : e.rank ≤ rank) (high : rank ≤ 7)
      (fits : (e.tokens style).length ≤ room) (stops : Stops rank rest) :
      Continues (reader (Parser.unary limit room) rank) (e.tokens style) rest
        fun n => loop limit room rank n e :=
    continues_of_le (fun _ => own fits) le high stops
  intro limit room rank rest high fits stops
  by_cases le : e.rank ≤ rank
  · rw [fitted_of_le le] at fits ⊢
    exact bare le high fits stops
  · rw [fitted_of_lt (Nat.lt_of_not_le le)] at fits ⊢
    obtain ⟨m, rfl⟩ : ∃ m, room = m + 1 := ⟨room - 1, by
      simp only [parens, List.length_cons] at fits
      omega⟩
    have shorter : (e.tokens style).length ≤ m := by
      simp only [parens, List.length_cons, List.length_append] at fits
      omega
    refine continues_parens (fun rest stop => ?_) high stops
    rw [Parser.expr_succ]
    exact (bare e.rank_le (Nat.le_refl 7) shorter (stop.mono (Nat.le_succ 7))).reads
      (Parser.reads_loop (Nat.le_refl 7) stop)

/-! ### Every kind of expression -/

/-- `e` is `Legible` if `primary` reads it. -/
theorem legible_of_primary (tight : e.rank = 0)
    (bang : (e.tokens style).head? ≠ some (.symbol .bang))
    (minus : (e.tokens style).head? ≠ some (.symbol .minus))
    (own : ∀ ⦃limit room : Nat⦄ ⦃rest : List Token⦄, (e.tokens style).length ≤ room →
      Reads (Parser.primary (Parser.expr limit room)) (e.tokens style) e rest) :
    e.Legible style := by
  refine legible_of_own fun limit room rest fits _ => ?_
  obtain ⟨t, ts, whole, -⟩ := e.opens style
  rw [tight]
  refine Parser.continues_primary ?_ ?_ (own fits)
  · rw [whole] at bang ⊢
    exact bang
  · rw [whole] at minus ⊢
    exact minus

theorem length_le_of_mem_items (style : Style) {items : List Expr} {item : Expr}
    (mem : item ∈ items) :
    (item.tokens style).length ≤ (tokensOfItems style items).length := by
  induction items with
  | nil => cases mem
  | cons first items ih =>
    rw [tokensOfItems, List.length_append, List.length_append]
    rcases List.mem_cons.1 mem with rfl | mem
    · omega
    · have within := ih mem
      omega

theorem length_le_of_mem_entries (style : Style) {entries : List (String × Expr)}
    {entry : String × Expr} (mem : entry ∈ entries) :
    (entry.2.tokens style).length ≤ (tokensOfEntries style entries).length := by
  induction entries with
  | nil => cases mem
  | cons first entries ih =>
    rw [tokensOfEntries, List.length_cons, List.length_cons, List.length_append,
      List.length_append]
    rcases List.mem_cons.1 mem with rfl | mem
    · omega
    · have within := ih mem
      omega

theorem legible_list {items : List Expr} (h : ∀ item ∈ items, item.Legible style) :
    (list items).Legible style := by
  refine legible_of_primary rfl nofun nofun fun limit room rest fits => ?_
  rw [Expr.tokens] at fits ⊢
  simp only [List.length_cons, List.length_append] at fits
  refine .peek <| .advance <| .turns fun n enough => .last <|
    Parser.reads_items rfl rfl (by decide) (fun item mem rest stops => ?_) ?_
  · have within := length_le_of_mem_items style mem
    exact (h item mem).reads_expr (by omega) stops
  · simp only [List.length_append] at enough
    omega

theorem legible_map {entries : List (String × Expr)}
    (h : ∀ entry ∈ entries, entry.2.Legible style) : (map entries).Legible style := by
  refine legible_of_primary rfl nofun nofun fun limit room rest fits => ?_
  rw [Expr.tokens] at fits ⊢
  simp only [braces, List.length_cons, List.length_append] at fits
  refine .peek <| .advance <| .turns fun n enough => .last <|
    Parser.reads_entries (fun entry mem rest stops => ?_) ?_
  · have within := length_le_of_mem_entries style mem
    exact (h entry mem).reads_expr (by omega) stops
  · simp only [List.length_append] at enough
    omega

theorem continues_ident (name : String) :
    Continues (Parser.unary limit room) [.ident name] rest
      fun n => Parser.accesses (Parser.expr limit room) n (.ident name) :=
  Parser.continues_primary nofun nofun <| .peek <| .advance <| .refl _ _

theorem legible_call {args : List Expr} (h : ∀ arg ∈ args, arg.Legible style) (name : String) :
    (call name args).Legible style := by
  refine legible_of_own fun limit room rest fits _ => ?_
  rw [Expr.tokens] at fits ⊢
  simp only [parens, List.length_cons, List.length_append] at fits
  refine (continues_ident name).turn fun n => Parser.leads_call (fun m enough => ?_) n
  refine Parser.reads_items rfl rfl (by decide) (fun arg mem rest stops => ?_) enough
  have within := length_le_of_mem_items style mem
  exact (h arg mem).reads_expr (by omega) stops

theorem legible_member {base : Expr} (h : base.Legible style) (name : String) :
    (member base name).Legible style := by
  refine legible_of_own fun limit room rest fits _ => ?_
  rw [Expr.tokens] at fits ⊢
  rw [List.length_append] at fits
  exact (h (Nat.zero_le 7) (by omega) (stops_zero _)).turn Parser.leads_member

theorem legible_index {base key : Expr} (h : base.Legible style) (h' : key.Legible style) :
    (index base key).Legible style := by
  refine legible_of_own fun limit room rest fits _ => ?_
  rw [Expr.tokens] at fits ⊢
  simp only [List.length_append, List.length_cons] at fits
  exact (h (Nat.zero_le 7) (by omega) (stops_zero _)).turn <|
    Parser.leads_index <| h'.reads_expr (by omega) (stops_symbol rfl _ _)

theorem legible_unary {operand : Expr} (h : operand.Legible style) (op : UnaryOp) :
    (unary op operand).Legible style := by
  refine legible_of_own fun limit room rest fits stops => ?_
  rw [Expr.tokens] at fits ⊢
  obtain ⟨m, rfl⟩ := Nat.exists_eq_add_of_le' (Nat.le_trans (Nat.le_add_left 1 _) fits)
  have inner : Reads (Parser.unary limit m) (operand.fitted 1 (operand.tokens style)) operand
      rest := (h (by decide) (Nat.le_of_succ_le_succ fits) stops).reads fun _ => .refl _ _
  have whole : Reads (reader (Parser.unary limit (m + 1)) 0)
      (.symbol op.symbol :: operand.fitted 1 (operand.tokens style)) (unary op operand) rest := by
    cases op with
    | not => exact .eat <| .last inner
    | neg => exact .skip_cons nofun <| .eat <| .last inner
  exact Parser.continues_reader whole

/-- Operators join from the left: the left operand may have the rank of the whole,
the right one may not. -/
theorem legible_joined {left right : Expr} {s : Symbol} (h : left.Legible style)
    (h' : right.Legible style) (low : 2 ≤ e.rank) (joint : s.joint = some e.rank)
    (whole : e.tokens style = left.fitted e.rank (left.tokens style) ++
      .symbol s :: right.fitted (e.rank - 1) (right.tokens style))
    (step : ∀ ⦃operand us rest⦄ n, Reads operand us right rest →
      Leads (Parser.climb e.rank operand (n + 1) left) (.symbol s :: us) rest
        (Parser.climb e.rank operand n e)) : e.Legible style := by
  refine legible_of_own fun limit room rest fits stops => ?_
  have high := e.rank_le
  have below : e.rank - 1 + 1 = e.rank := Nat.sub_add_cancel (by omega)
  rw [whole, List.length_append, List.length_cons] at fits
  have follows : Reads (reader (Parser.unary limit room) (e.rank - 1))
      (right.fitted (e.rank - 1) (right.tokens style)) right rest :=
    h'.reads (by omega) (by omega) (below.symm ▸ stops)
  rw [whole]
  -- the left operand stops before an operator of its own rank, where the loop goes on
  refine (h high (by omega) (stops_joint joint _)).turn fun n => ?_
  rw [Parser.loop_eq low]
  exact step n follows

theorem legible_binary {left right : Expr} (h : left.Legible style) (h' : right.Legible style)
    (op : BinaryOp) : (binary op left right).Legible style := by
  refine legible_joined h h' op.rank_bounds.1 op.joint_symbol (by rw [Expr.tokens]; rfl) ?_
  intro operand us rest n read
  change Leads (Parser.climb op.rank operand (n + 1) left) _ _ (Parser.climb op.rank operand n _)
  rw [Parser.climb_binary]
  exact Parser.leads_joined (Parser.lookup_row op) read n

theorem legible_logical {left right : Expr} (h : left.Legible style) (h' : right.Legible style)
    (op : LogicalOp) : (logical op left right).Legible style := by
  have low : 2 ≤ op.rank := Nat.le_trans (by decide) op.rank_bounds.1
  refine legible_joined h h' low op.joint_symbol (by rw [Expr.tokens]; rfl) ?_
  intro operand us rest n read
  change Leads (Parser.climb op.rank operand (n + 1) left) _ _ (Parser.climb op.rank operand n _)
  rw [Parser.climb_logical]
  refine Parser.leads_joined ?_ read n
  cases op <;> rfl

mutual

/-- **Expressions are read back.**  Every expression is `Legible` in every style. -/
theorem legible (style : Style) : ∀ e : Expr, e.Legible style
  | .null => legible_of_primary rfl nofun nofun fun _ _ _ _ => .peek <| .advance <| .refl _ _
  | .bool true => legible_of_primary rfl nofun nofun fun _ _ _ _ => .peek <| .advance <| .refl _ _
  | .bool false => legible_of_primary rfl nofun nofun fun _ _ _ _ => .peek <| .advance <| .refl _ _
  | .int _ => legible_of_primary rfl nofun nofun fun _ _ _ _ => .peek <| .advance <| .refl _ _
  | .str _ => legible_of_primary rfl nofun nofun fun _ _ _ _ => .peek <| .advance <| .refl _ _
  | .ident _ => legible_of_primary rfl nofun nofun fun _ _ _ _ => .peek <| .advance <| .refl _ _
  | .list items => legible_list (legible_items style items)
  | .map entries => legible_map (legible_entries style entries)
  | .member base name => legible_member (legible style base) name
  | .index base key => legible_index (legible style base) (legible style key)
  | .call name args => legible_call (legible_items style args) name
  | .unary op operand => legible_unary (legible style operand) op
  | .binary op left right => legible_binary (legible style left) (legible style right) op
  | .logical op left right => legible_logical (legible style left) (legible style right) op

theorem legible_items (style : Style) : ∀ items : List Expr, ∀ item ∈ items, item.Legible style
  | [] => nofun
  | item :: items => List.forall_mem_cons.2 ⟨legible style item, legible_items style items⟩

theorem legible_entries (style : Style) :
    ∀ entries : List (String × Expr), ∀ entry ∈ entries, entry.2.Legible style
  | [] => nofun
  | (_, value) :: entries =>
    List.forall_mem_cons.2 ⟨legible style value, legible_entries style entries⟩

end

/-- **An expression is read back** by `expr` with room for its tokens, where the rest
`Stops` it. -/
theorem reads (style : Style) (e : Expr) (fits : (e.tokens style).length < room)
    (stops : Stops 8 rest) : Reads (Parser.expr limit room) (e.tokens style) e rest :=
  (e.legible style).reads_expr fits stops

/-- Parentheses around an expression are not part of it. -/
theorem reads_parens (style : Style) (e : Expr) (fits : (parens (e.tokens style)).length < room)
    (stops : Stops 8 rest) : Reads (Parser.expr limit room) (parens (e.tokens style)) e rest := by
  obtain ⟨m, rfl⟩ := Nat.exists_eq_succ_of_ne_zero (Nat.ne_zero_of_lt fits)
  simp only [parens, List.length_cons, List.length_append] at fits
  have inner : ∀ rest, Stops 8 rest → Reads (Parser.expr limit m) (e.tokens style) e rest :=
    fun rest => e.reads style (by omega)
  rw [Parser.expr_succ]
  exact (continues_parens inner (Nat.le_refl 7) (stops.mono (Nat.le_succ 7))).reads
    (Parser.reads_loop (Nat.le_refl 7) stops)

end Expr

end LedgerScript.Script
