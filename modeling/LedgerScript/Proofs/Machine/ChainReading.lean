import LedgerScript.Proofs.Machine.Unmetered
import LedgerScript.Proofs.Value.Parts

/-!
# Chains of accesses that are read in place

A chain of accesses to a variable is read in one walk into its value, once all the
keys are evaluated.  So it comes to what it would come to if the variable was copied
and each access was made, with its key evaluated just before, to a copy of what the
access before has found (`Evaluator.readSteps`), given that the keys leave the
variable as it is.  Main statement: `Evaluator.readChain_iff_readSteps`.
-/

namespace LedgerScript

open Script (Program Expr Accessor Place)

variable {σ : Type}

/-- A `chain` whose `place?` is `target` begins at the variable `target.root` and goes
along `target.path`. -/
theorem Script.Expr.chain_of_place? {e : Expr} {target : Place} (h : e.place? = some target)
    (path : List Accessor) : e.chain path = (.ident target.root, target.path ++ path) := by
  fun_induction Expr.place? e generalizing target path with
  | case1 name =>
    cases h
    rfl
  | case2 base name ih =>
    obtain ⟨inner, named, rfl⟩ := Option.map_eq_some_iff.1 h
    rw [Expr.chain, ih named, List.append_assoc]
    rfl
  | case3 base key ih =>
    obtain ⟨inner, named, rfl⟩ := Option.map_eq_some_iff.1 h
    rw [Expr.chain, ih named, List.append_assoc]
    rfl
  | case4 => cases h

namespace Evaluator

/-- A copy of a variable. -/
def copyVariable (name : String) : Exec σ Value := do
  let slot ← Exec.lookup name
  Exec.chargeCopy slot.value 0
  return slot.value

/-- A copy of what one key selects. -/
def copySelected (v : Value) (k : PathKey) : Exec σ Value := do
  let found ← Exec.compute (v.select k)
  Exec.chargeCopy found v.scanned
  return found

/-- A path into a variable, read in place. -/
def readAt (root : String) (keys : List PathKey) : Exec σ Value := do
  let slot ← Exec.lookup root
  readInto slot.value keys

section Definitions

variable (below : Evaluator σ) (p : Program)

/-- One access to a value. -/
def access (v : Value) : Accessor → Exec σ Value
  | .member name => copySelected v (.name name)
  | .index key => do copySelected v (.value (← below.eval p key))

/-- A chain of accesses made one after the other. -/
def accessAll (v : Value) : List Accessor → Exec σ Value
  | [] => return v
  | a :: rest => do accessAll (← below.access p v a) rest

/-- What a chain comes to step by step. -/
def readSteps : Expr → Exec σ Value
  | .member base name => do below.access p (← readSteps base) (.member name)
  | .index base key => do below.access p (← readSteps base) (.index key)
  | .ident name => copyVariable name
  | e => below.eval p e

theorem accessAll_concat (path : List Accessor) (last : Accessor) (v : Value) :
    below.accessAll p v (path ++ [last]) =
      below.accessAll p v path >>= fun found => below.access p found last := by
  induction path generalizing v with
  | nil => exact bind_pure _
  | cons a rest ih =>
    refine (congrArg (below.access p v a >>= ·) (funext ih)).trans ?_
    exact (bind_assoc ..).symm

/-- `readSteps` of a chain that names a place goes along its path from a copy of its
variable. -/
theorem readSteps_of_place? {e : Expr} {target : Place} (h : e.place? = some target) :
    below.readSteps p e =
      copyVariable target.root >>= fun v => below.accessAll p v target.path := by
  fun_induction Expr.place? e generalizing target with
  | case1 name =>
    cases h
    exact (bind_pure _).symm
  | case2 base name ih =>
    obtain ⟨inner, named, rfl⟩ := Option.map_eq_some_iff.1 h
    rw [readSteps, ih named, bind_assoc]
    exact congrArg (copyVariable _ >>= ·)
      (funext fun v => (below.accessAll_concat p inner.path (.member name) v).symm)
  | case3 base key ih =>
    obtain ⟨inner, named, rfl⟩ := Option.map_eq_some_iff.1 h
    rw [readSteps, ih named, bind_assoc]
    exact congrArg (copyVariable _ >>= ·)
      (funext fun v => (below.accessAll_concat p inner.path (.index key) v).symm)
  | case4 => cases h

theorem readChain_ident (root : String) (path : List Accessor) :
    below.readChain p (.ident root) path = below.evalKeys p path >>= readAt root :=
  rfl

end Definitions

/-- Reads a path into a value at a price above that of what is found. -/
def readFrom (extra : Nat) (v : Value) (keys : List PathKey) : Exec σ Value := do
  let (found, scanned) ← Exec.compute (v.readPath keys)
  Exec.chargeCopy found (extra + scanned)
  return found

section Reading

variable {v w : Value} {k : PathKey} {keys : List PathKey} {extra : Nat}

theorem readFrom_zero (v : Value) (keys : List PathKey) :
    (readFrom 0 v keys : Exec σ Value) = readInto v keys := by
  unfold readFrom readInto
  simp only [Nat.zero_add]

theorem readFrom_of_ok (h : v.select k = .ok w) :
    (readFrom extra v (k :: keys) : Exec σ Value) = readFrom (extra + v.scanned) w keys := by
  unfold readFrom
  rw [Value.readPath_cons_of_ok h]
  cases w.readPath keys with
  | error f => rfl
  | ok found =>
    simp only [Nat.add_assoc]
    rfl

theorem readFrom_of_error {f : ScriptFault} (h : v.select k = .error f) :
    (readFrom extra v (k :: keys) : Exec σ Value) = Exec.fault f := by
  unfold readFrom
  rw [Value.readPath, h]
  rfl

end Reading

/-! ## Agreement -/

section Agreement

variable {x y : Evaluator σ} (alike : x.Alike y) (p : Program) {m n : Machine σ}

/-- `Agreed` for one access, given that the rest of the path has agreed from what it
finds. -/
theorem agreed_select {v : Value} {k : PathKey} {rest : List Accessor} {extra : Nat}
    (same : m.Recharged n)
    (ih : ∀ w, v.select k = .ok w → ∀ n, m.Recharged n →
      Agreed ((x.evalKeys p rest >>= fun keys => readFrom (extra + v.scanned) w keys) m)
        (y.accessAll p w rest n)) :
    Agreed ((x.evalKeys p rest >>= fun keys => readFrom extra v (k :: keys)) m)
      ((copySelected v k >>= fun found => y.accessAll p found rest) n) := by
  unfold copySelected
  simp only [bind_assoc, pure_bind]
  cases selected : v.select k with
  | ok w =>
    simp only [readFrom_of_ok selected]
    exact (Agreed.charged (Exec.charges_chargeCopy w v.scanned) fun next charged =>
      (ih w selected next (same.trans charged)).symm).symm
  | error f =>
    simp only [readFrom_of_error selected]
    cases evaluated : x.evalKeys p rest m with
    | ok keys next =>
      rw [bind_of_ok evaluated]
      exact .failed
    | error e next =>
      rw [bind_of_error evaluated]
      exact .failed

include alike

/-- `accessAll` has `Agreed` with the keys followed by `readFrom`.  The induction is on
the path: what the walk has passed over so far, `extra`, is paid at its end. -/
theorem agreed_accessAll (path : List Accessor) (v : Value) (extra : Nat)
    (same : m.Recharged n) :
    Agreed ((x.evalKeys p path >>= fun keys => readFrom extra v keys) m)
      (y.accessAll p v path n) := by
  induction path generalizing v extra m n with
  | nil =>
    change Agreed ((Exec.chargeCopy v (extra + 0) >>= fun _ => pure v) m) (.ok v n)
    exact .charged (Exec.charges_chargeCopy v _) fun next charged => .ok (charged.symm.trans same)
  | cons a rest ih =>
    cases a with
    | member name =>
      simp only [evalKeys, bind_assoc, pure_bind]
      exact agreed_select p same fun w _ n same => ih w _ same
    | index key =>
      simp only [evalKeys, accessAll, access, bind_assoc, pure_bind]
      exact (alike.agreed p key same).bind fun k _ _ _ _ same =>
        agreed_select p same fun w _ n same => ih w _ same

/-- The variable that a chain begins with may be looked up before the keys are
evaluated, if they leave it as it is. -/
theorem agreed_readChain {root : String} {path : List Accessor}
    (kept : ∀ keys next, x.evalKeys p path m = .ok keys next →
      (next.vars.find? root).map Slot.value = (m.vars.find? root).map Slot.value) :
    Agreed (x.readChain p (.ident root) path m)
      ((copyVariable root >>= fun v => y.accessAll p v path) m) := by
  rw [readChain_ident]
  unfold copyVariable
  cases found : m.vars.find? root with
  | none =>
    rw [bind_assoc, bind_of_error (Exec.lookup_of_none found)]
    cases evaluated : x.evalKeys p path m with
    | error e next =>
      rw [bind_of_error evaluated]
      exact .failed
    | ok keys next =>
      have same := kept keys next evaluated
      rw [found, Option.map_none, Option.map_eq_none_iff] at same
      rw [bind_of_ok evaluated, readAt, bind_of_error (Exec.lookup_of_none same)]
      exact .failed
  | some slot =>
    have early : (x.evalKeys p path >>= readAt root) m =
        (x.evalKeys p path >>= fun keys => readFrom 0 slot.value keys) m := by
      cases evaluated : x.evalKeys p path m with
      | error e next => rw [bind_of_error evaluated, bind_of_error evaluated]
      | ok keys next =>
        have same := kept keys next evaluated
        rw [found, Option.map_some, Option.map_eq_some_iff] at same
        obtain ⟨later, found', value⟩ := same
        rw [bind_of_ok evaluated, bind_of_ok evaluated, readFrom_zero, readAt,
          bind_of_ok (Exec.lookup_of_some found'), value]
    have copied : ∀ next, m.Recharged next →
        Agreed (y.accessAll p slot.value path next)
          ((x.evalKeys p path >>= fun keys => readFrom 0 slot.value keys) m) := fun next charged =>
      (agreed_accessAll alike p path slot.value 0 charged).symm
    rw [early, bind_assoc, bind_of_ok (Exec.lookup_of_some found), bind_assoc]
    exact (Agreed.charged (Exec.charges_chargeCopy slot.value 0) copied).symm

end Agreement

/-- **In-place reads are stepwise reads.**  `readChain` of a chain whose keys leave its
variable as it is comes to a value just if `readSteps` comes to it, and the machines that
they leave are `Recharged`: they have the same variables, the same host and the same
outside but for what has been charged, as long as neither way is `Exhausted`. -/
theorem readChain_iff_readSteps (entries : Committed) (limits : StateLimits)
    (resolve : ContractId → EStateM ContractError σ Contract) (level level' : Nat) (p : Program)
    {e : Expr} {target : Place} (chain : e.place? = some target) (m : Machine σ)
    (kept : ∀ keys next,
      (ofLevels (.unwatched entries limits resolve) level).evalKeys p target.path m =
          .ok keys next →
        (next.vars.find? target.root).map Slot.value =
          (m.vars.find? target.root).map Slot.value) :
    let s : Surroundings σ := .unwatched entries limits resolve
    let walked := ((ofLevels s level).readChain p (e.chain []).1 (e.chain []).2).finish m
    let stepped := ((ofLevels s level').readSteps p e).finish m
    (∀ err, walked.1 = .error err → ¬ err.Exhausted) →
      (∀ err, stepped.1 = .error err → ¬ err.Exhausted) →
        (∀ v, walked.1 = .ok v ↔ stepped.1 = .ok v) ∧
          ∀ v, walked.1 = .ok v → walked.2.Recharged stepped.2 := by
  dsimp only
  rw [e.chain_of_place? chain, List.append_nil, readSteps_of_place? _ p chain]
  exact (agreed_readChain (alike_ofLevels entries limits resolve level level') p kept).finish

end Evaluator

/-! ## An example -/

namespace CountingIndex

/-- Reads `m.a[next()].length`. -/
def chain : Expr :=
  .member (.index (.member (.ident "m") "a") (.call "next" [])) "length"

/-- What counts its calls in `n`. -/
def next : Script.Function where
  name := "next"
  params := []
  body := [.assign ⟨"n", []⟩ .add (.int 1), .result (some (.ident "n"))]

def program : Program := { functions := Std.ExtTreeMap.ofList [(next.name, next)] }

def globals : Scope :=
  ((∅ : Scope).insert "n" ⟨.int 0, false⟩).insert "m"
    ⟨.map [("a", .list [.str "x", .str "yz"])], true⟩

def machine : Machine Unit where
  vars := { globals := globals }
  host := .new (.new {} 1) {} (.forInvoke (Contract.specimen 0 []).id "" "m" .null 0)
  outside := ()

def walked : Except ContractError Value × Machine Unit :=
  ((Evaluator.ofLevels .bare 8).readChain program (chain.chain []).1
    (chain.chain []).2).finish machine

def stepped : Except ContractError Value × Machine Unit :=
  ((Evaluator.ofLevels .bare 9).readSteps program chain).finish machine

def path : List Accessor := [.member "a", .index (.call "next" []), .member "length"]

theorem kept (keys : List PathKey) (later : Machine Unit)
    (evaluated : (Evaluator.ofLevels .bare 8).evalKeys program path machine =
      .ok keys later) :
    (later.vars.find? "m").map Slot.value = (machine.vars.find? "m").map Slot.value := by
  have same : ((((Evaluator.ofLevels .bare 8).evalKeys program path).finish
      machine).2.vars.find? "m").map Slot.value =
        (machine.vars.find? "m").map Slot.value := by decide +kernel
  rw [Exec.finish_of_ok evaluated] at same
  exact same

/-- `readChain_iff_readSteps` for the text that the counter selects: it has two
characters, in one walk and step by step. -/
theorem length_walked :
    walked.1 = .ok (.int 2) ∧ stepped.1 = .ok (.int 2) ∧ walked.2.Recharged stepped.2 := by
  have two : walked.1 = .ok (.int 2) := eq_ok_of_toOption (by decide +kernel)
  have two' : stepped.1 = .ok (.int 2) := eq_ok_of_toOption (by decide +kernel)
  have place : chain.place? = some ⟨"m", path⟩ := rfl
  obtain ⟨-, same⟩ := Evaluator.readChain_iff_readSteps ∅ {} _ 8 9 program place machine kept
    (fun _ failed => nomatch two.symm.trans failed) fun _ failed => nomatch two'.symm.trans failed
  exact ⟨two, two', same _ two⟩

end CountingIndex

end LedgerScript
