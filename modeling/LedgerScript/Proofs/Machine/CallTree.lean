import LedgerScript.Proofs.Machine.Conduct
import LedgerScript.Proofs.Machine.Noting

/-!
# Who wrote what

A watcher who notes every call that returns, inside the call during which it
was made (`CallTree`), knows who wrote what is pending in the end: the contract
that was run, or one that it reaches through calls that all returned a truthy
value (`CallTree.Reaches`).  Main statement: `execute_writers`.
-/

namespace LedgerScript

variable {σ : Type}

/-- A call that has returned, with the calls that were made during it, the
earliest first. -/
inductive CallTree where
  | node (callee : ContractId) (truthy : Bool) (calls : List CallTree)

namespace CallTree

/-- `Reaches calls id`: a chain of calls, each of which returned a truthy value, leads to
the contract `id`. -/
inductive Reaches : List CallTree → ContractId → Prop where
  | direct {calls below : List CallTree} {callee : ContractId} :
    node callee true below ∈ calls → Reaches calls callee
  | through {calls below : List CallTree} {callee id : ContractId} :
    node callee true below ∈ calls → Reaches below id → Reaches calls id

theorem Reaches.mono {calls more : List CallTree} {id : ContractId} (h : Reaches calls id)
    (sub : ∀ t ∈ calls, t ∈ more) : Reaches more id := by
  cases h with
  | direct mem => exact .direct (sub _ mem)
  | through mem rest => exact .through (sub _ mem) rest

/-- Notes of calls: the calls that were made during each of those that have not
returned, the innermost first. -/
abbrev Notes := List (List CallTree)

/-- A call that is `called` has made no calls; when it has `returned`, it is one of the
calls made during the one around it. -/
def note : Event → Notes → Notes
  | .called, notes => [] :: notes
  | .returned callee truthy, calls :: around :: rest =>
    (around ++ [node callee truthy calls]) :: rest
  | _, notes => notes

/-- Keeps `Notes` of all calls. -/
def noting (s : Surroundings σ) : Surroundings (σ × Notes) :=
  s.noting fun event _ _ notes => note event notes

/-- What a run changes while it adds `more` to the calls of the running
contract: it writes for the running contract and for those it reaches. -/
structure Adds (a b : Machine (σ × Notes)) (more : List CallTree) : Prop where
  contexts : b.host.contexts = a.host.contexts
  notes : ∀ calls rest, a.outside.2 = calls :: rest → b.outside.2 = (calls ++ more) :: rest
  writers : ∀ key : StateKey, b.host.view.writes[key]? ≠ a.host.view.writes[key]? →
    a.host.space? = some key.space ∨ ∃ id, Reaches more id ∧ key.space = id.space

/-- A change that adds some calls. -/
def Grows (a b : Machine (σ × Notes)) : Prop := ∃ more, Adds a b more

theorem Adds.trans {a b c : Machine (σ × Notes)} {first second : List CallTree}
    (hab : Adds a b first) (hbc : Adds b c second) : Adds a c (first ++ second) where
  contexts := hbc.contexts.trans hab.contexts
  notes calls rest h := by
    rw [hbc.notes (calls ++ first) rest (hab.notes calls rest h), List.append_assoc]
  writers key changed := by
    by_cases same : b.host.view.writes[key]? = a.host.view.writes[key]?
    · rw [← same] at changed
      rcases hbc.writers key changed with own | ⟨id, reaches, space⟩
      · rw [Host.space?_of_contexts hab.contexts] at own
        exact .inl own
      · exact .inr ⟨id, reaches.mono fun t mem => List.mem_append_right first mem, space⟩
    · rcases hab.writers key same with own | ⟨id, reaches, space⟩
      · exact .inl own
      · exact .inr ⟨id, reaches.mono fun t mem => List.mem_append_left second mem, space⟩

/-- `Adds` for a change of something else: there are no more calls than before. -/
theorem Adds.same {a b : Machine (σ × Notes)} (contexts : b.host.contexts = a.host.contexts)
    (notes : b.outside.2 = a.outside.2) (writes : b.host.view.writes = a.host.view.writes) :
    Adds a b [] where
  contexts := contexts
  notes calls rest h := by rw [notes, h, List.append_nil]
  writers key changed := absurd (by rw [writes]) changed

theorem Adds.write {m : Machine (σ × Notes)} {key : StateKey} {op : WriteOp}
    (space : m.host.space? = some key.space) :
    Adds m (m.withView { m.host.view with writes := m.host.view.writes.insert key op }) [] where
  contexts := rfl
  notes calls rest h := by rw [List.append_nil]; exact h
  writers other changed := by
    change (m.host.view.writes.insert key op)[other]? ≠ _ at changed
    rw [Std.ExtTreeMap.getElem?_insert] at changed
    split at changed
    · rename_i same
      rw [← Std.compare_eq_iff_eq.1 same]
      exact .inl space
    · exact absurd rfl changed

/-- `Adds` for a called contract that returns: it is one more call, and what it has
written counts only if it returned a truthy value. -/
theorem Adds.returned {s : Surroundings σ} {m next : Machine (σ × Notes)} {child : Context}
    {truthy : Bool} {more : List CallTree} (may : m.MayCall child) (back : m.Restores next)
    (h : Adds (m.entering (noting s) child) next more) :
    Adds m (m.resume (noting s) child truthy next) [node child.contract truthy more] where
  contexts := by cases truthy <;> exact back
  notes calls rest before := by
    -- the callee noted its calls in a list of its own, in front of ours
    have during : next.outside.2 = more :: calls :: rest := by
      rw [← before]
      exact h.notes [] m.outside.2 rfl
    have after : (m.resume (noting s) child truthy next).outside.2 =
        note (.returned child.contract truthy) next.outside.2 := by
      cases truthy <;> rfl
    rw [after, during]
    rfl
  writers key changed := by
    cases truthy with
    | false => exact absurd rfl changed
    | true =>
      right
      rcases h.writers key changed with own | ⟨id, reaches, space⟩
      · have own : key.space = child.space := (Option.some.inj own).symm
        exact ⟨child.contract, .direct (List.mem_singleton_self _), own.trans may.space⟩
      · exact ⟨id, .through (List.mem_singleton_self _) reaches, space⟩

theorem own_grows (s : Surroundings σ) : AllowsOwn (noting s) Grows fun _ _ => True where
  refl _ := ⟨[], .same rfl rfl rfl⟩
  trans := fun ⟨_, hab⟩ ⟨_, hbc⟩ => ⟨_, hab.trans hbc⟩
  fail _ := trivial
  after _ _ := trivial
  before _ _ := trivial
  vars _ _ := ⟨[], .same rfl rfl rfl⟩
  meter _ _ _ := ⟨[], .same rfl rfl rfl⟩
  framed {m next opened scope} _ done := by
    have entered : Adds m (m.inFrame opened scope) [] := .same rfl rfl rfl
    have left : Adds next next.outFrame [] := .same rfl rfl rfl
    obtain ⟨more, done⟩ := done
    exact ⟨_, (entered.trans done).trans left⟩
  framedError _ _ := trivial
  look _ _ _ := ⟨[], .same rfl rfl (View.writes_look _ _ _)⟩
  write _ _ _ space _ := ⟨[], .write space⟩
  log _ _ := ⟨[], .same rfl rfl rfl⟩
  entered _ := ⟨[], .same rfl rfl rfl⟩
  left _ := ⟨[], .same rfl rfl rfl⟩
  resolve _ _ _ h := ⟨[], .same rfl (Surroundings.notes_of_resolve h) rfl⟩

theorem allows_grows (s : Surroundings σ) :
    Allows .lax (noting s) (fun _ => Grows) fun _ _ _ => True where
  value _ := trivial
  admits := Regime.admits_lax
  own _ := own_grows s
  builtin _ _ _ _ := ⟨[], .same rfl rfl rfl⟩
  hosted _ _ _ _ := ⟨[], .same rfl rfl rfl⟩
  returned _ _ _ _ may back h := h.elim fun _ h => ⟨_, h.returned may back⟩
  broken _ _ _ _ _ _ := trivial

/-- The calls that the contract of a run makes, as its watcher has noted them
when the run is over. -/
def ofRun (s : Surroundings σ) (contract : Contract) (context : Context) (view : View)
    (budget : Budget) (interval : UInt64) (outside : σ) : List CallTree :=
  (execute (noting s) contract context view budget interval (outside, [[]])).2.2.headD []

end CallTree

/-- **Who wrote what.**  A run of `execute` that returns a value has pending, besides what
was pending in its `view` before, only writes in the namespace of its `contract` and in
those of contracts that its calls (`CallTree.ofRun`) `Reaches` through calls that all
returned a truthy value. -/
theorem execute_writers (s : Surroundings σ) (contract : Contract) (context : Context)
    (view : View) (budget : Budget) (interval : UInt64) (outside : σ) {v : Value}
    (returned : (execute s contract context view budget interval outside).1.result = .ok v)
    {key : StateKey}
    (changed : (execute s contract context view budget interval outside).1.view.writes[key]? ≠
      view.writes[key]?) :
    key.space = context.space ∨
      ∃ id, CallTree.Reaches
        (CallTree.ofRun s contract context view budget interval outside) id ∧
          key.space = id.space := by
  have watched : (execute (CallTree.noting s) contract context view budget interval
      (outside, [[]])).1 = (execute s contract context view budget interval outside).1 :=
    (execute_noting s _ contract context view budget interval outside [[]]).1
  rw [← watched] at returned changed
  unfold CallTree.ofRun
  unfold execute Exec.finish at returned changed ⊢
  dsimp only at returned changed ⊢
  cases hr : runEntry (CallTree.noting s) contract context
      (Machine.start (Host.new (Meter.new budget interval) view context) (outside, [[]])) with
  | error e next =>
    rw [hr] at returned
    cases returned
  | ok w next =>
    rw [hr] at changed
    obtain ⟨more, adds⟩ := ((CallTree.allows_grows s).runEntry contract context).ok hr
    have noted : next.outside.2 = [more] := adds.notes [] [] rfl
    dsimp only
    rw [noted]
    exact (adds.writers key changed).imp_left fun own => (Option.some.inj own).symm

end LedgerScript
