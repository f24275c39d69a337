import LedgerScript.Proofs.Machine.Changes
import LedgerScript.Proofs.Machine.Noting

/-!
# What a program dispatches

A call that names no function of the program goes to a built-in function or to
the host.  A watcher notes each of these calls.  Main statement: whatever a run
dispatches itself is called somewhere in the text of its program, and no
function of the program has the name (`Dispatch.mem_acts_of_mem_ofRun`).
-/

namespace LedgerScript

open Script (Program Act)

variable {σ : Type}

/-- A program has no acts but those of its text (`Program.acts`). -/
def Regime.own : Regime where
  value _ := True
  act p act := act ∈ p.acts

namespace Dispatch

/-- The names of the functions that were called, the last one first, each with
the number of contracts that waited meanwhile. -/
abbrev Notes := List (Nat × String)

def note (event : Event) (host : Host) (notes : Notes) : Notes :=
  match event with
  | .builtin f => (host.callers.length, f.name) :: notes
  | .hosted f => (host.callers.length, f.name) :: notes
  | _ => notes

def noting (s : Surroundings σ) : Surroundings (σ × Notes) :=
  s.noting fun event _ host notes => note event host notes

/-- The names that a run dispatches itself; what contracts dispatch that are
called by it is noted with a greater number of waiting ones. -/
def ofRun (s : Surroundings σ) (p : Program) (name : String) (args : List Value)
    (m : Machine σ) : List String :=
  let ended := ((Evaluator.whole (noting s)).run p name args).finish (m.noted [])
  (ended.2.outside.2.filter (·.1 = m.host.callers.length)).map Prod.snd

/-- The name is called among the `acts` of the program, and is none of its functions. -/
def Calls (p : Program) (name : String) : Prop :=
  .call name ∈ p.acts ∧ p.functions[name]? = none

/-- A change during which the program `p` runs and calls what its text calls;
whatever else is called is called while it waits. -/
structure Keeps (p : Program) (a b : Machine (σ × Notes)) : Prop where
  callers : b.host.callers.length = a.host.callers.length
  notes : ∀ n ∈ b.outside.2, n ∈ a.outside.2 ∨ a.host.callers.length < n.1 ∨
    n.1 = a.host.callers.length ∧ Calls p n.2

variable {p q : Program} {a b c m next : Machine (σ × Notes)} {child : Context}

theorem Keeps.same (callers : b.host.callers = a.host.callers)
    (notes : b.outside.2 = a.outside.2) : Keeps p a b where
  callers := congrArg List.length callers
  notes _ mem := .inl (notes ▸ mem)

theorem Keeps.trans (hab : Keeps p a b) (hbc : Keeps p b c) : Keeps p a c where
  callers := hbc.callers.trans hab.callers
  notes n mem := by
    have later := hbc.notes n mem
    rw [hab.callers] at later
    rcases later with before | new
    · exact hab.notes n before
    · exact .inr new

theorem Keeps.called (own : b.host.callers = a.host.callers) {name : String}
    (call : Calls p name) (notes : b.outside.2 = (a.host.callers.length, name) :: a.outside.2) :
    Keeps p a b where
  callers := congrArg List.length own
  notes n mem := by
    rw [notes] at mem
    rcases List.mem_cons.1 mem with rfl | before
    · exact .inr (.inr ⟨rfl, call⟩)
    · exact .inl before

/-- `Keeps` of a called contract is so of its caller: what it calls is called while its
caller waits. -/
theorem Keeps.nested {s : Surroundings σ} (may : m.MayCall child)
    (h : Keeps q (m.entering (noting s) child) next) (own : b.host.callers = m.host.callers)
    (notes : b.outside.2 = next.outside.2) :
    Keeps p m b where
  callers := congrArg List.length own
  notes n mem := by
    have waiting : (m.entering (noting s) child).host.callers.length =
        m.host.callers.length + 1 := may.length_contexts
    have during := h.notes n (notes ▸ mem)
    rw [waiting] at during
    rcases during with before | deeper | ⟨level, -⟩
    · exact .inl before
    · exact .inr (.inl (by omega))
    · exact .inr (.inl (by omega))

theorem own_keeps (s : Surroundings σ) (p : Program) :
    AllowsOwn (noting s) (Keeps p) (Keeps p) where
  refl _ := .same rfl rfl
  trans := .trans
  fail _ := .same rfl rfl
  after := .trans
  before := .trans
  vars _ _ := .same rfl rfl
  meter _ _ _ := .same rfl rfl
  framed _ done := ⟨done.callers, done.notes⟩
  framedError _ failed := ⟨failed.callers, failed.notes⟩
  look _ _ _ := .same rfl rfl
  write _ _ _ _ _ := .same rfl rfl
  log _ _ := .same rfl rfl
  entered _ := .same rfl rfl
  left _ := .same rfl rfl
  resolve _ _ _ found := .same rfl (Surroundings.notes_of_resolve found)

theorem allows_keeps (s : Surroundings σ) : Allows .own (noting s) Keeps Keeps where
  value _ := trivial
  admits _ _ mem := mem
  own := own_keeps s
  builtin _ _ act free := .called rfl ⟨act, free⟩ rfl
  hosted _ _ act free := .called rfl ⟨act, free⟩ rfl
  returned m next child truthy may back h := by
    have own : next.host.returning.callers = m.host.callers := congrArg List.tail back
    cases truthy with
    | true => exact h.nested may own rfl
    | false => exact h.nested may own rfl
  broken _ _ _ may back h := h.nested may (congrArg List.tail back) rfl

/-- **A run dispatches what its text calls:**  a name in `ofRun` is a call among
`Program.acts`, and no function of the program. -/
theorem mem_acts_of_mem_ofRun {s : Surroundings σ} {p : Program} {name : String}
    {args : List Value} {m : Machine σ} {called : String} (h : called ∈ ofRun s p name args m) :
    .call called ∈ p.acts ∧ p.functions[called]? = none := by
  obtain ⟨⟨level, _⟩, noted, rfl⟩ := List.mem_map.1 h
  obtain ⟨mem, own⟩ := List.mem_filter.1 noted
  have kept := ((allows_keeps s).run p name args).ends (Exec.ends_finish _ (m.noted []))
  rcases kept.notes _ mem with before | deeper | ⟨-, call⟩
  · cases before
  · exact absurd (of_decide_eq_true own) (Nat.ne_of_gt deeper)
  · exact call

end Dispatch

end LedgerScript
