import LedgerScript.Proofs.Machine.NestedCall
import LedgerScript.Proofs.Script.Places

/-!
# Exits from loops

A statement that leaves or repeats a loop stands inside of one, so a loop takes all such
exits of its body, and no body of a function ends in one (`Evaluator.parsed_sound`).
-/

namespace LedgerScript

open Script (Program Expr Stmt Function)

variable {σ α : Type}

/-- The `Flow` of a statement that leaves or repeats the loop around it. -/
def Flow.isExit : Flow → Bool
  | leave | again => true
  | _ => false

theorem Flow.ne_of_isExit {flow : Flow} (h : flow.isExit = false) :
    flow ≠ .leave ∧ flow ≠ .again := by
  constructor <;> rintro rfl <;> cases h

namespace Exec

variable {x : Exec σ Flow} {inLoop : Bool}

/-- `x` ends in an exit only where there is a loop to exit from. -/
def ExitsWithin (inLoop : Bool) (x : Exec σ Flow) : Prop :=
  ∀ ⦃m next : Machine σ⦄ ⦃flow : Flow⦄, x m = .ok flow next → flow.isExit = true → inLoop = true

namespace ExitsWithin

theorem pure {flow : Flow} (h : flow.isExit = true → inLoop = true) :
    (pure flow : Exec σ Flow).ExitsWithin inLoop := by
  intro m next flow' ran exit
  cases ran
  exact h exit

theorem onward : (Pure.pure .onward : Exec σ Flow).ExitsWithin inLoop :=
  pure fun exit => absurd exit Bool.false_ne_true

theorem result (v : Value) : (Pure.pure (.result v) : Exec σ Flow).ExitsWithin inLoop :=
  pure fun exit => absurd exit Bool.false_ne_true

theorem bind {y : Exec σ α} {f : α → Exec σ Flow} (h : ∀ a, (f a).ExitsWithin inLoop) :
    (y >>= f).ExitsWithin inLoop := by
  intro m next flow ran
  obtain ⟨a, mid, -, ran⟩ := bind_eq_ok ran
  exact h a ran

/-- The second step may use how the first one ends. -/
theorem andThen {f : Flow → Exec σ Flow} (hx : x.ExitsWithin inLoop)
    (hf : ∀ flow, (flow.isExit = true → inLoop = true) → (f flow).ExitsWithin inLoop) :
    (x >>= f).ExitsWithin inLoop := by
  intro m next flow ran
  obtain ⟨first, mid, ran', ran⟩ := bind_eq_ok ran
  exact hf first (hx ran') ran

theorem throw (e : ContractError) : (throw e : Exec σ Flow).ExitsWithin inLoop := by
  intro m next flow ran
  cases ran

theorem closing (h : x.ExitsWithin inLoop) (close : Machine σ → Machine σ) :
    (closing x close).ExitsWithin inLoop := by
  intro m next flow ran
  unfold Exec.closing at ran
  cases first : x m with
  | error e last =>
    rw [first] at ran
    cases ran
  | ok flow' last =>
    rw [first] at ran
    cases ran
    exact h first

theorem nested {s : Surroundings σ} (h : x.ExitsWithin inLoop) :
    (Evaluator.nested s x).ExitsWithin inLoop :=
  .bind fun _ => .bind fun _ => .closing (.bind fun _ => h) _

end ExitsWithin

end Exec

namespace Evaluator

open Exec (ExitsWithin)

variable {below : Evaluator σ} {p : Program} {inLoop : Bool}

/-- Well-formed statements end with `Flow.isExit` only inside of loops. -/
def Contained (below : Evaluator σ) : Prop :=
  ∀ ⦃p : Program⦄ ⦃inLoop : Bool⦄ ⦃stmt : Stmt⦄, stmt.wellFormed inLoop = true →
    (below.exec p stmt).ExitsWithin inLoop

theorem Contained.execAll (h : below.Contained) {body : List Stmt}
    (formed : Stmt.bodyWellFormed inLoop body = true) :
    (below.execAll p body).ExitsWithin inLoop := by
  induction body with
  | nil => exact .onward
  | cons stmt rest ih =>
    obtain ⟨first, formed⟩ := (Bool.and_eq_true _ _).mp formed
    refine .andThen (h first) fun flow exits => ?_
    split
    · exact ih formed
    · exact .pure exits

theorem Contained.execBlock (h : below.Contained) {body : List Stmt}
    (formed : Stmt.bodyWellFormed inLoop body = true) :
    (below.execBlock p body).ExitsWithin inLoop :=
  .bind fun _ => .closing (h.execAll formed) _

/-- `turn` takes the exits of the body of the loop. -/
theorem exitsWithin_turn (test : Expr) (body : List Stmt) (n : Nat) :
    (below.turn p test body n).ExitsWithin inLoop := by
  induction n with
  | zero => exact .throw _
  | succ n ih =>
    refine .bind fun v => ?_
    split
    · refine .bind fun flow => ?_
      split
      · exact .onward
      · exact .result _
      · exact ih
    · exact .onward

theorem Contained.execBody (h : below.Contained) {stmt : Stmt}
    (formed : stmt.wellFormed inLoop = true) : (below.execBody p stmt).ExitsWithin inLoop := by
  cases stmt with
  | declare b => exact .bind fun _ => .bind fun _ => .onward
  | assign target op value => exact .bind fun _ => .onward
  | branch test yes no =>
    simp only [Stmt.wellFormed, Bool.and_eq_true] at formed
    refine .bind fun v => ?_
    split
    · exact h.execBlock formed.1.2
    · exact h.execBlock formed.2
  | loop test body => exact exitsWithin_turn test body _
  | block body => exact h.execBlock formed
  | leave => exact .pure fun _ => formed
  | again => exact .pure fun _ => formed
  | result value => exact .bind fun v => .result v
  | fail value => exact .bind fun v => .throw _
  | evaluate value => exact .bind fun _ => .onward

theorem contained_ofLevels (s : Surroundings σ) (level : Nat) : (ofLevels s level).Contained := by
  induction level with
  | zero => exact fun p inLoop stmt _ => .throw _
  | succ level ih => exact fun p inLoop stmt formed => .nested (ih.execBody formed)

/-- **Parsed programs are well formed.**  Every function stands under its name, and no two
names of the top level or parameters of a function are the same; all names are names and no
reserved words, no integer is negative, constants have values, and `break` and `continue`
stand inside of loops.  So no body of a function ends in an exit from a loop. -/
theorem parsed_sound {source : String} {maxDepth : Nat} {p : Program}
    (parsed : Script.parse source maxDepth = .ok p) :
    p.WellFormed ∧ ∀ (σ : Type) (s : Surroundings σ) (level : Nat) (name : String) (f : Function),
      p.functions[name]? = some f → ∀ (m next : Machine σ) (flow : Flow),
        (ofLevels s level).execAll p f.body m = .ok flow next → flow ≠ .leave ∧ flow ≠ .again := by
  have formed := Script.parse_cases source maxDepth
  rw [parsed] at formed
  refine ⟨formed, fun σ s level name f found m next flow ran => ?_⟩
  have whole := (formed.functions found).2
  simp only [Function.wellFormed, Bool.and_eq_true] at whole
  have exits := (contained_ofLevels s level).execAll (p := p) whole.2 ran
  exact Flow.ne_of_isExit (Bool.eq_false_iff.2 fun exit => Bool.false_ne_true (exits exit))

end Evaluator

namespace BreakInBranch

/-- A loop that is left from inside of a branch. -/
def source : String := "const top = 9223372036854775807; function f(n, m) \x7b
  while (n != m) \x7b if (n > top) continue; else break; \x7d return n; \x7d"

def machine : Machine Unit where
  vars := { globals := ((((∅ : Scope).insert "top" ⟨.int 9223372036854775807, true⟩).insert "n"
    ⟨.int 1, false⟩).insert "m" ⟨.int 2, false⟩) }
  host := .new (.new {} 1) {} (.forInvoke (Contract.specimen 0 []).id "" "f" .null 0)
  outside := ()

theorem f_returns : ∃ p f flow next, Script.parse source 9 = .ok p ∧ p.functions["f"]? = some f ∧
    (Evaluator.ofLevels .bare 9).execAll p f.body machine = .ok flow next ∧
      p.WellFormed ∧ flow ≠ .leave ∧ flow ≠ .again := by
  have evaluated : ((Script.parse source 9).toOption.any fun p => p.functions["f"]?.any fun f =>
      (((Evaluator.ofLevels .bare 9).execAll p f.body).finish machine).1.toOption =
        some (.result (.int 1))) = true := by decide +kernel
  obtain ⟨p, parsed, any⟩ := exists_ok_of_any evaluated
  obtain ⟨f, found, checked⟩ := (Option.any_eq_true _ _).1 any
  have ran := Exec.eq_ok_of_finish (eq_ok_of_toOption (of_decide_eq_true checked))
  obtain ⟨formed, onward⟩ := Evaluator.parsed_sound parsed
  exact ⟨p, f, _, _, parsed, found, ran, formed, onward _ _ _ _ _ found _ _ _ ran⟩

end BreakInBranch

end LedgerScript
