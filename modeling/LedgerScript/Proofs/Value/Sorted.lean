import LedgerScript.Machine.Builtin
import LedgerScript.Machine.Operator
import LedgerScript.Proofs.Sequence
import LedgerScript.Proofs.Value.Places

/-!
# Values with sorted maps

Whatever is made of sorted values is sorted: what operators, built-in functions
and paths give, and what is read from a document (`Value.sorted_of_ofJson`), which
also nests no deeper than a document may (`Value.depth_le_of_ofJson`).
-/

namespace LedgerScript

/-! ## Parts -/

namespace Entries

variable {α : Type}

theorem mem_ofList {pairs : List (String × α)} {e : String × α} (h : e ∈ ofList pairs) :
    e ∈ pairs := by
  suffices ∀ entries : Entries α,
      e ∈ pairs.foldl (fun entries pair => entries.put pair.1 pair.2) entries →
        e ∈ entries ∨ e ∈ pairs from
    (this [] h).resolve_left List.not_mem_nil
  intro entries mem
  clear h
  induction pairs generalizing entries with
  | nil => exact .inl mem
  | cons pair rest ih =>
    rcases ih _ mem with early | later
    · rcases mem_put early with rfl | old
      · exact .inr List.mem_cons_self
      · exact .inl old
    · exact .inr (List.mem_cons_of_mem pair later)

theorem mem_of_get? {entries : Entries α} {key : String} {v : α}
    (h : entries.get? key = some v) : (key, v) ∈ entries := by
  induction entries with
  | nil => cases h
  | cons e rest ih =>
    obtain ⟨k, w⟩ := e
    rw [get?_cons] at h
    split at h
    · rename_i same
      cases h
      rw [same]
      exact List.mem_cons_self
    · exact List.mem_cons_of_mem _ (ih h)

end Entries

namespace Value

theorem sortedItems_iff {items : List Value} :
    SortedItems items ↔ ∀ v ∈ items, v.Sorted := by
  induction items with
  | nil => simp [SortedItems]
  | cons item rest ih => simp [SortedItems, ih]

theorem sortedEntries_iff {entries : List (String × Value)} :
    SortedEntries entries ↔ ∀ e ∈ entries, e.2.Sorted := by
  induction entries with
  | nil => simp [SortedEntries]
  | cons e rest ih => simp [SortedEntries, ih]

theorem sorted_list {items : List Value} (h : ∀ v ∈ items, v.Sorted) : (list items).Sorted :=
  sortedItems_iff.2 h

theorem sorted_map {entries : Entries Value} (order : entries.Sorted)
    (h : ∀ e ∈ entries, e.2.Sorted) : (map entries).Sorted :=
  ⟨order, sortedEntries_iff.2 h⟩

theorem sorted_ofList {pairs : List (String × Value)} (h : ∀ e ∈ pairs, e.2.Sorted) :
    (map (Entries.ofList pairs)).Sorted :=
  sorted_map (Entries.sorted_ofList pairs) fun e mem => h e (Entries.mem_ofList mem)

theorem Sorted.of_mem {items : List Value} (h : (list items).Sorted) {v : Value}
    (mem : v ∈ items) : v.Sorted :=
  sortedItems_iff.1 h v mem

theorem Sorted.of_get? {entries : Entries Value} (h : (map entries).Sorted) {key : String}
    {v : Value} (found : entries.get? key = some v) : v.Sorted :=
  sortedEntries_iff.1 h.2 _ (Entries.mem_of_get? found)

theorem Sorted.put {entries : Entries Value} (h : (map entries).Sorted) (key : String) {v : Value}
    (hv : v.Sorted) : (map (entries.put key v)).Sorted := by
  refine sorted_map (Entries.Sorted.put h.1 key v) fun e mem => ?_
  rcases Entries.mem_put mem with rfl | old
  · exact hv
  · exact sortedEntries_iff.1 h.2 e old

/-! ## Paths -/

theorem Sorted.getD {v? : Option Value} (h : ∀ v, v? = some v → v.Sorted) :
    (v?.getD null).Sorted := by
  cases v? with
  | none => trivial
  | some v => exact h v rfl

theorem Sorted.member {v found : Value} (h : v.Sorted) {name : String}
    (eq : v.member name = .ok found) : found.Sorted := by
  unfold Value.member at eq
  split at eq
  · cases eq
    exact Sorted.getD fun v found => h.of_get? found
  · split at eq <;> cases eq
    trivial
  · split at eq <;> cases eq
    trivial
  · cases eq

theorem Sorted.item {v key found : Value} (h : v.Sorted) (eq : v.item key = .ok found) :
    found.Sorted := by
  unfold Value.item at eq
  split at eq <;> cases eq
  · refine Sorted.getD fun v found => ?_
    obtain ⟨i, -, inside⟩ := Option.bind_eq_some_iff.1 found
    exact h.of_mem (List.mem_of_getElem? inside)
  · exact Sorted.getD fun v found => h.of_get? found
  · exact Sorted.getD fun v found => h.of_get? found
  · refine Sorted.getD fun v found => ?_
    obtain ⟨c, -, rfl⟩ := Option.map_eq_some_iff.1 found
    trivial

theorem Sorted.readPath {v : Value} (h : v.Sorted) {keys : List PathKey} {found : Value × Nat}
    (eq : v.readPath keys = .ok found) : found.1.Sorted := by
  induction keys generalizing v found with
  | nil =>
    cases eq
    exact h
  | cons key rest ih =>
    obtain ⟨child, last, selected, inner, rfl⟩ := readPath_cons_eq_ok eq
    have inside : child.Sorted := by
      cases key with
      | name s => exact h.member selected
      | value key => exact h.item selected
    have sorted : last.1.Sorted := ih inside inner
    exact sorted

theorem Sorted.set {items : List Value} (h : (list items).Sorted) (i : Nat) {v : Value}
    (hv : v.Sorted) : (list (items.set i v)).Sorted :=
  sorted_list fun _ mem => (List.mem_or_eq_of_mem_set mem).elim h.of_mem fun eq => eq ▸ hv

theorem Sorted.setEntry {entries : Entries Value} (h : (map entries).Sorted) (key : String)
    {v : Value} (hv : v.Sorted) : (map (Entries.set key v entries)).Sorted := by
  refine sorted_map (Entries.Sorted.set h.1 key v) fun e mem => ?_
  rcases Entries.mem_set mem with rfl | old
  · exact hv
  · exact sortedEntries_iff.1 h.2 e old

theorem Sorted.writePath {new : Value} (hnew : new.Sorted) (keys : List PathKey) {v next : Value}
    (h : v.Sorted) (eq : writePath new keys v = .ok () next) : next.Sorted := by
  induction keys generalizing v next with
  | nil =>
    cases eq
    exact hnew
  | cons key rest ih =>
    obtain ⟨spot, child, changed, reached, written, rfl⟩ := writePath_cons_eq_ok eq
    rcases reach_eq_ok reached with ⟨entries, name, rfl, -, rfl, rfl, -⟩ |
      ⟨items, n, i, rfl, -, -, rfl, got⟩
    · have inside : changed.Sorted := ih (Sorted.getD fun v found => h.of_get? found) written
      unfold Value.put
      cases rest.isEmpty with
      | true => exact h.put name inside
      | false => exact h.setEntry name inside
    · exact h.set i (ih (h.of_mem (List.mem_of_getElem? got)) written)

/-! ## Documents -/

end Value

namespace Json

variable {α β : Type}

/-- `Gives P x`: whatever the reader `x` returns has the property `P`. -/
def Gives (P : α → Prop) (x : Read α) : Prop :=
  ∀ ⦃input : Input⦄ ⦃a : α⦄ ⦃next : Input⦄, x input = .ok a next → P a

section

variable {P : α → Prop} {Q : β → Prop} {x : Read α} {f : α → Read β}

theorem Gives.pure {a : α} (h : P a) : Gives P (pure a : Read α) := by
  intro input b next ran
  cases ran
  exact h

theorem Gives.bind (hx : Gives P x) (hf : ∀ a, P a → Gives Q (f a)) : Gives Q (x >>= f) := by
  intro input b next ran
  obtain ⟨a, mid, first, second⟩ := bind_eq_ok ran
  exact hf a (hx first) second

/-- What comes first does not matter. -/
theorem Gives.after (hf : ∀ a, Gives Q (f a)) : Gives Q (x >>= f) := by
  intro input b next ran
  obtain ⟨a, mid, -, second⟩ := bind_eq_ok ran
  exact hf a second

theorem Gives.ite {c : Prop} [Decidable c] {y : Read α} (hx : Gives P x) (hy : Gives P y) :
    Gives P (if c then x else y) := by
  split
  · exact hx
  · exact hy

theorem gives_failAhead (fault : Fault) : Gives P (failAhead fault : Read α) := by
  intro input a next ran
  cases ran

theorem gives_refuse (fault : Fault) : Gives P (refuse fault : Read α) := by
  intro input a next ran
  cases ran

theorem Gives.enclosed {finish : Read Unit} (hx : Gives P x) : Gives P (enclosed x finish) := by
  intro input a next ran
  unfold Json.enclosed at ran
  split at ran
  · rename_i b mid first
    split at ran <;> cases ran
    exact hx first
  · split at ran <;> cases ran

theorem Gives.itemsFrom (hx : Gives P x) (first : Bool) (n : Nat) :
    Gives (fun items => ∀ a ∈ items, P a) (itemsFrom x first n) := by
  induction n generalizing first with
  | zero => exact gives_failAhead _
  | succ n ih =>
    unfold Json.itemsFrom
    refine .after fun more => ?_
    cases more with
    | false => exact .pure (List.forall_mem_nil _)
    | true =>
      exact hx.bind fun head hhead => (ih false).bind fun tail htail =>
        .pure (List.forall_mem_cons.2 ⟨hhead, htail⟩)

theorem Gives.fieldsFrom (hx : Gives P x) (first : Bool) (n : Nat) :
    Gives (fun fields => ∀ e ∈ fields, P e.2) (fieldsFrom x first n) := by
  induction n generalizing first with
  | zero => exact gives_failAhead _
  | succ n ih =>
    unfold Json.fieldsFrom
    refine .after fun key => ?_
    cases key with
    | none => exact .pure (List.forall_mem_nil _)
    | some key =>
      refine .after fun _ => hx.bind fun v hv => (ih false).bind fun tail htail => ?_
      exact .pure (List.forall_mem_cons.2 ⟨hv, htail⟩)

end

/-- What `decode` gives has the property that the reader `Gives`. -/
theorem Gives.decode {P : α → Prop} {value : Nat → Read α} (h : Gives P (value maxNesting))
    {text : String} {a : α} (eq : decode value text = .ok a) : P a := by
  unfold Json.decode decodeBytes at eq
  split at eq
  · rename_i b next ran
    cases eq
    have whole : Gives P (wholeDocument value) :=
      h.bind fun a ha => .after fun ahead => by
        cases ahead with
        | none => exact .pure ha
        | some _ => exact gives_failAhead _
    exact whole ran
  · cases eq

end Json

namespace Value

open Json (Gives)

/-- The value that is read, if it is one, has a property. -/
def IfAny (P : Value → Prop) (v? : Option Value) : Prop := ∀ v, v? = some v → P v

/-- Properties, one for each number of containers that may still open, of whatever is
put together from scalars, texts and the containers that are read. -/
structure ReadProperty (P : Nat → Value → Prop) : Prop where
  null : ∀ room, P room .null
  bool : ∀ room b, P room (.bool b)
  int : ∀ room n, P room (.int n)
  str : ∀ room s, P room (.str s)
  list : ∀ room {items : List Value}, (∀ v ∈ items, P room v) → P (room + 1) (.list items)
  map : ∀ room {pairs : List (String × Value)}, (∀ e ∈ pairs, P room e.2) →
    P (room + 1) (.map (Entries.ofList pairs))

theorem exists_mem_of_mapM {α β : Type} {f : α → Option β} {l : List α} {r : List β}
    (h : l.mapM f = some r) {b : β} (mem : b ∈ r) : ∃ a ∈ l, f a = some b := by
  induction l generalizing r with
  | nil =>
    cases h
    cases mem
  | cons a rest ih =>
    rw [List.mapM_cons] at h
    obtain ⟨c, head, h⟩ := Option.bind_eq_some_iff.1 h
    obtain ⟨cs, tail, h⟩ := Option.bind_eq_some_iff.1 h
    cases h
    rcases List.mem_cons.1 mem with rfl | later
    · exact ⟨a, List.mem_cons_self, head⟩
    · obtain ⟨a', inside, eq⟩ := ih tail later
      exact ⟨a', List.mem_cons_of_mem a inside, eq⟩

theorem ifAny_some {P : Value → Prop} {v : Value} (h : P v) : IfAny P (some v) := by
  intro w eq
  cases eq
  exact h

namespace ReadProperty

variable {P : Nat → Value → Prop} (h : ReadProperty P) (room : Nat)

include h

theorem ifAny_ofNumber? (n : Json.Number) : IfAny (P room) (ofNumber? n) := by
  intro v eq
  unfold ofNumber? at eq
  split at eq
  · split at eq <;> cases eq
    exact h.int room _
  · cases eq
    exact h.int room _
  · cases eq

theorem ifAny_ofItems? {items : List (Option Value)} (each : ∀ v? ∈ items, IfAny (P room) v?) :
    IfAny (P (room + 1)) (ofItems? items) := by
  intro v eq
  obtain ⟨values, all, rfl⟩ := Option.map_eq_some_iff.1 eq
  refine h.list room fun w mem => ?_
  obtain ⟨v?, inside, same⟩ := exists_mem_of_mapM all mem
  exact each v? inside w same

theorem ifAny_ofEntries? {entries : List (String × Option Value)}
    (each : ∀ e ∈ entries, IfAny (P room) e.2) : IfAny (P (room + 1)) (ofEntries? entries) := by
  intro v eq
  obtain ⟨values, all, rfl⟩ := Option.map_eq_some_iff.1 eq
  refine h.map room fun e mem => ?_
  obtain ⟨e?, inside, same⟩ := exists_mem_of_mapM all mem
  obtain ⟨w, found, rfl⟩ := Option.map_eq_some_iff.1 same
  exact each e? inside w found

theorem gives_readWith {items entries : Json.Read (Option Value)}
    (hi : Gives (IfAny (P room)) items) (he : Gives (IfAny (P room)) entries) :
    Gives (IfAny (P room)) (readWith items entries) := by
  have number : ∀ positive,
      Gives (IfAny (P room)) (do return ofNumber? (← Json.number positive)) :=
    fun _ => .after fun n => .pure (h.ifAny_ofNumber? room n)
  have literal : ∀ {x : Json.Read Unit} {v : Value}, P room v →
      Gives (IfAny (P room)) (do Json.skip; x; return some v) :=
    fun held => .after fun _ => .after fun _ => .pure (ifAny_some held)
  have text : Gives (IfAny (P room)) (do Json.skip; return some (Value.str (← Json.stringRest))) :=
    .after fun _ => .after fun s => .pure (ifAny_some (h.str room s))
  exact .after fun b =>
    .ite (literal (h.null room)) <| .ite (literal (h.bool room true)) <|
      .ite (literal (h.bool room false)) <| .ite (.after fun _ => number false) <|
        .ite (number true) <| .ite text <| .ite hi <| .ite he (Json.gives_failAhead _)

theorem gives_readAny : Gives (IfAny (P room)) (readAny room) := by
  induction room with
  | zero => exact h.gives_readWith 0 (Json.gives_failAhead _) (Json.gives_failAhead _)
  | succ room ih =>
    refine h.gives_readWith (room + 1) (.after fun _ => ?_) (.after fun _ => ?_)
    · exact Gives.bind (.enclosed (.after fun n => ih.itemsFrom true n)) fun items hi =>
        .pure (h.ifAny_ofItems? room hi)
    · exact Gives.bind (.enclosed (.after fun n => ih.fieldsFrom true n)) fun entries he =>
        .pure (h.ifAny_ofEntries? room he)

omit room in
/-- What `ofJson` reads has the property for all the room that there is. -/
theorem of_ofJson {text : String} {v : Value} (eq : ofJson text = .ok v) :
    P Json.maxNesting v := by
  refine Gives.decode ?_ eq
  refine (h.gives_readAny Json.maxNesting).bind fun v? hv => ?_
  cases v? with
  | none => exact Json.gives_refuse _
  | some v => exact .pure (hv v rfl)

end ReadProperty

/-- A value that `ofJson` reads is `Sorted`. -/
theorem sorted_of_ofJson {text : String} {v : Value} (h : ofJson text = .ok v) : v.Sorted := by
  have reads : ReadProperty fun _ v => v.Sorted :=
    ⟨fun _ => trivial, fun _ _ => trivial, fun _ _ => trivial, fun _ _ => trivial,
      fun _ => sorted_list, fun _ => sorted_ofList⟩
  exact reads.of_ofJson h

theorem depthOfItems_le {items : List Value} {room : Nat} (h : ∀ v ∈ items, v.depth ≤ room) :
    depthOfItems items ≤ room := by
  induction items with
  | nil => exact Nat.zero_le room
  | cons item rest ih =>
    obtain ⟨first, others⟩ := List.forall_mem_cons.1 h
    exact Nat.max_le.2 ⟨first, ih others⟩

theorem depthOfEntries_le {entries : List (String × Value)} {room : Nat}
    (h : ∀ e ∈ entries, e.2.depth ≤ room) : depthOfEntries entries ≤ room := by
  induction entries with
  | nil => exact Nat.zero_le room
  | cons e rest ih =>
    obtain ⟨first, others⟩ := List.forall_mem_cons.1 h
    exact Nat.max_le.2 ⟨first, ih others⟩

/-- A value that `ofJson` reads nests no deeper than `Json.maxNesting`. -/
theorem depth_le_of_ofJson {text : String} {v : Value} (h : ofJson text = .ok v) :
    v.depth ≤ Json.maxNesting := by
  have reads : ReadProperty fun room v => v.depth ≤ room := by
    refine ⟨Nat.zero_le, fun room _ => Nat.zero_le room, fun room _ => Nat.zero_le room,
      fun room _ => Nat.zero_le room, fun room items each => ?_, fun room pairs each => ?_⟩
    · rw [depth, Nat.add_comm]
      exact Nat.succ_le_succ (depthOfItems_le each)
    · rw [depth, Nat.add_comm]
      exact Nat.succ_le_succ (depthOfEntries_le fun e mem => each e (Entries.mem_ofList mem))
  exact reads.of_ofJson h

end Value

/-! ## Operators and built-in functions -/

theorem sorted_of_exact {n : Int} {v : Value} (h : exact n = .ok v) : v.Sorted := by
  obtain ⟨r, rfl, -⟩ := exact_eq_ok_iff.1 h
  trivial

theorem sorted_of_onInts {op : Script.BinaryOp} {f : Int64 → Int64 → Except ScriptFault Value}
    (hf : ∀ {a b v}, f a b = .ok v → v.Sorted) {left right v : Value}
    (h : onInts op f left right = .ok v) : v.Sorted := by
  unfold onInts at h
  split at h
  · exact hf h
  · cases h

theorem sorted_of_compared {op : Script.BinaryOp} {ints : Int64 → Int64 → Bool}
    {texts : String → String → Bool} {left right v : Value}
    (h : compared op ints texts left right = .ok v) : v.Sorted := by
  unfold compared at h
  split at h <;> cases h <;> trivial

theorem sorted_of_sum {left right v : Value} (h : sum left right = .ok v) : v.Sorted := by
  unfold sum at h
  split at h
  · exact sorted_of_exact h
  · cases h
    trivial
  · cases h
    trivial
  · cases h

/-- What `apply` gives for two operands is a scalar or a text, and so `Sorted`. -/
theorem Script.BinaryOp.sorted_of_apply {op : BinaryOp} {left right v : Value}
    (h : op.apply left right = .ok v) : v.Sorted := by
  cases op with
  | eq => cases h; trivial
  | notEq => cases h; trivial
  | add => exact sorted_of_sum h
  | sub => exact sorted_of_onInts sorted_of_exact h
  | mul => exact sorted_of_onInts sorted_of_exact h
  | div =>
    refine sorted_of_onInts (fun eq => ?_) h
    unfold quotient at eq
    split at eq
    · cases eq
    · exact sorted_of_exact eq
  | rem =>
    refine sorted_of_onInts (fun eq => ?_) h
    obtain ⟨_, -, eq⟩ := except_bind_eq_ok eq
    exact sorted_of_exact eq
  | lt => exact sorted_of_compared h
  | ltEq => exact sorted_of_compared h
  | gt => exact sorted_of_compared h
  | gtEq => exact sorted_of_compared h

namespace Builtin

theorem ofOne_eq_ok {b : Builtin} {f : Value → Except ScriptFault Value} {args : List Value}
    {v : Value} (h : b.ofOne f args = .ok v) : ∃ arg, args = [arg] ∧ f arg = .ok v := by
  unfold ofOne at h
  split at h
  · exact ⟨_, rfl, h⟩
  · cases h

theorem ofTwo_eq_ok {b : Builtin} {f : Value → Value → Except ScriptFault Value}
    {args : List Value} {v : Value} (h : b.ofTwo f args = .ok v) :
    ∃ first second, args = [first, second] ∧ f first second = .ok v := by
  unfold ofTwo at h
  split at h
  · exact ⟨_, _, rfl, h⟩
  · cases h

theorem sorted_of_toInt {arg v : Value} (h : toInt arg = .ok v) : v.Sorted := by
  cases arg with
  | str s =>
    unfold toInt at h
    dsimp only at h
    generalize Text.readInt64 (Text.trim s).toList = read at h
    cases read <;> cases h
    trivial
  | null => cases h; trivial
  | bool b => cases h; trivial
  | int n => cases h; trivial
  | list items => cases h
  | map entries => cases h

theorem sorted_of_keysOf {arg v : Value} (h : keysOf arg = .ok v) : v.Sorted := by
  unfold keysOf at h
  split at h
  · cases h
    refine Value.sorted_list fun w mem => ?_
    obtain ⟨e, -, rfl⟩ := List.mem_map.1 mem
    trivial
  · cases h

theorem sorted_of_pushed {whole item v : Value} (hw : whole.Sorted) (hi : item.Sorted)
    (h : pushed whole item = .ok v) : v.Sorted := by
  unfold pushed at h
  split at h
  · cases h
    refine Value.sorted_list fun w mem => ?_
    rcases List.mem_append.1 mem with old | new
    · exact hw.of_mem old
    · rw [List.mem_singleton.1 new]
      exact hi
  · cases h

theorem sorted_of_decoded {arg v : Value} (h : decoded arg = .ok v) : v.Sorted := by
  unfold decoded at h
  split at h
  · split at h
    · cases h
    · rename_i read
      obtain ⟨_, -, eq⟩ := except_bind_eq_ok h
      cases eq
      exact Value.sorted_of_ofJson read
  · cases h

/-- A built-in function makes `Sorted` values of sorted ones. -/
theorem sorted_of_apply {b : Builtin} {args : List Value} (hargs : ∀ v ∈ args, v.Sorted)
    {v : Value} (h : b.apply args = .ok v) : v.Sorted := by
  cases b with
  | len =>
    obtain ⟨arg, -, eq⟩ := ofOne_eq_ok h
    unfold length at eq
    split at eq <;> cases eq <;> trivial
  | str =>
    obtain ⟨arg, -, eq⟩ := ofOne_eq_ok h
    cases eq
    trivial
  | int =>
    obtain ⟨arg, -, eq⟩ := ofOne_eq_ok h
    exact sorted_of_toInt eq
  | keys =>
    obtain ⟨arg, -, eq⟩ := ofOne_eq_ok h
    exact sorted_of_keysOf eq
  | contains =>
    obtain ⟨first, second, -, eq⟩ := ofTwo_eq_ok h
    unfold holds at eq
    split at eq <;> cases eq <;> trivial
  | push =>
    obtain ⟨first, second, rfl, eq⟩ := ofTwo_eq_ok h
    exact sorted_of_pushed (hargs first (by simp)) (hargs second (by simp)) eq
  | jsonEncode =>
    obtain ⟨arg, -, eq⟩ := ofOne_eq_ok h
    obtain ⟨_, -, eq⟩ := except_bind_eq_ok eq
    cases eq
    trivial
  | jsonDecode =>
    obtain ⟨arg, -, eq⟩ := ofOne_eq_ok h
    exact sorted_of_decoded eq

end Builtin

end LedgerScript
