import LedgerScript.State.View
import Mathlib.Algebra.Group.Nat.Defs
import Mathlib.Data.List.Induction

/-!
# What a digest commits to

The listing of a set of writes can be read back: every part that can vary in length
has its length in front, so a code is told apart from any other whatever stands
behind them (`SelfDelimiting`), and so is a sequence of codes (`SelfDelimiting.flatMap`).
Main statement: `listing_eq_iff`.
-/

namespace LedgerScript

/-! ## Codes -/

/-- `bigEndian` tells numbers that fit apart. -/
theorem Sha256.bigEndian_injective {count m n : Nat} (hm : m < 256 ^ count)
    (hn : n < 256 ^ count) (h : bigEndian count m = bigEndian count n) : m = n := by
  induction count generalizing m n with
  | zero =>
    rw [pow_zero] at hm hn
    omega
  | succ count ih =>
    obtain ⟨high, low⟩ := List.append_inj' h rfl
    have upper : m / 256 = n / 256 := by
      rw [pow_succ] at hm hn
      exact ih (by omega) (by omega) high
    have byte : (UInt8.ofNat (m % 256)).toNat = (UInt8.ofNat (n % 256)).toNat := by
      rw [List.head_eq_of_cons_eq low]
    have lower : m % 256 = n % 256 := by
      rw [UInt8.toNat_ofNat_of_lt' (Nat.mod_lt m (by decide)),
        UInt8.toNat_ofNat_of_lt' (Nat.mod_lt n (by decide))] at byte
      exact byte
    omega

theorem Text.utf8_injective {s t : String} (h : utf8 s = utf8 t) : s = t := by
  have round := Text.ofUtf8_utf8 s
  rw [h, Text.ofUtf8_utf8 t] at round
  exact (Except.ok.inj round).symm

/-- Codes of things of which `P` holds are told apart whatever stands behind them. -/
def SelfDelimiting {α : Type} (P : α → Prop) (code : α → List UInt8) : Prop :=
  ∀ ⦃a b : α⦄, P a → P b → ∀ ⦃x y : List UInt8⦄, code a ++ x = code b ++ y → a = b ∧ x = y

namespace SelfDelimiting

variable {α : Type} {P : α → Prop} {code : α → List UInt8}

/-- `SelfDelimiting` codes that take some room are told apart one after the other. -/
theorem flatMap (h : SelfDelimiting P code) (long : ∀ a, code a ≠ []) {as bs : List α}
    (ha : ∀ a ∈ as, P a) (hb : ∀ b ∈ bs, P b) (same : as.flatMap code = bs.flatMap code) :
    as = bs := by
  induction as generalizing bs with
  | nil =>
    cases bs with
    | nil => rfl
    | cons b bs =>
      rw [List.flatMap_cons] at same
      exact absurd (List.append_eq_nil_iff.1 same.symm).1 (long b)
  | cons a as ih =>
    cases bs with
    | nil =>
      rw [List.flatMap_cons] at same
      exact absurd (List.append_eq_nil_iff.1 same).1 (long a)
    | cons b bs =>
      rw [List.flatMap_cons, List.flatMap_cons] at same
      rw [List.forall_mem_cons] at ha hb
      obtain ⟨rfl, rest⟩ := h ha.1 hb.1 same
      rw [ih ha.2 hb.2 rest]

end SelfDelimiting

namespace WriteSet

/-- A length that fits the eight bytes in front, as that of anything in memory does. -/
def Fits (n : Nat) : Prop := n < 2 ^ 64

instance (n : Nat) : Decidable (Fits n) := inferInstanceAs (Decidable (n < 2 ^ 64))

theorem selfDelimiting_framed : SelfDelimiting (fun bytes => Fits bytes.length) framed := by
  intro a b ha hb x y same
  unfold framed at same
  rw [List.append_assoc, List.append_assoc] at same
  obtain ⟨front, rest⟩ := List.append_inj same
    ((Sha256.length_bigEndian 8 _).trans (Sha256.length_bigEndian 8 _).symm)
  exact List.append_inj rest (Sha256.bigEndian_injective ha hb front)

theorem selfDelimiting_text :
    SelfDelimiting (fun s : String => Fits s.utf8ByteSize) fun s => framed (Text.utf8 s) := by
  intro s t hs ht x y same
  obtain ⟨bytes, rest⟩ := selfDelimiting_framed hs ht same
  exact ⟨Text.utf8_injective bytes, rest⟩

/-! ## Listings -/

/-- The part of a listing that says what is done to a key. -/
def opCode : WriteOp → List UInt8
  | .put bytes => 1 :: framed bytes
  | .delete => [0]

theorem listed_eq (key : StateKey) (op : WriteOp) :
    listed key op =
      framed (Text.utf8 key.space) ++ (framed (Text.utf8 key.name) ++ opCode op) := by
  rw [← List.append_assoc]
  cases op <;> rfl

theorem selfDelimiting_opCode :
    SelfDelimiting (fun op => ∀ bytes ∈ op.bytes?, Fits bytes.length) opCode := by
  intro op op' small small' x y same
  -- The first byte tells the two kinds apart.
  cases op with
  | put bytes =>
    cases op' with
    | put bytes' =>
      obtain ⟨rfl, rest⟩ := selfDelimiting_framed (small bytes rfl) (small' bytes' rfl)
        (List.cons.inj same).2
      exact ⟨rfl, rest⟩
    | delete => exact absurd (List.cons.inj same).1 (by decide)
  | delete =>
    cases op' with
    | put bytes' => exact absurd (List.cons.inj same).1 (by decide)
    | delete => exact ⟨rfl, (List.cons.inj same).2⟩

/-- A change whose parts have lengths that fit. -/
def Small (change : StateKey × WriteOp) : Prop :=
  Fits change.1.space.utf8ByteSize ∧ Fits change.1.name.utf8ByteSize ∧
    ∀ bytes ∈ change.2.bytes?, Fits bytes.length

instance (change : StateKey × WriteOp) : Decidable (Small change) :=
  inferInstanceAs (Decidable (_ ∧ _ ∧ _))

theorem selfDelimiting_listed : SelfDelimiting Small fun change => listed change.1 change.2 := by
  intro ⟨⟨space, name⟩, op⟩ ⟨⟨space', name'⟩, op'⟩ small small' x y same
  simp only [listed_eq, List.append_assoc] at same
  obtain ⟨spaces, behindSpace⟩ := selfDelimiting_text small.1 small'.1 same
  obtain ⟨names, behindName⟩ := selfDelimiting_text small.2.1 small'.2.1 behindSpace
  obtain ⟨ops, rest⟩ := selfDelimiting_opCode small.2.2 small'.2.2 behindName
  cases spaces
  cases names
  cases ops
  exact ⟨rfl, rest⟩

theorem listed_ne_nil (key : StateKey) (op : WriteOp) : listed key op ≠ [] := by
  intro empty
  have length := congrArg List.length empty
  simp [listed, framed, lengthBytes, Sha256.length_bigEndian] at length

/-- Writes that are `Small` can be read back from their `listing`. -/
theorem listing_injective {w v : WriteSet} (hw : ∀ change ∈ w.toList, Small change)
    (hv : ∀ change ∈ v.toList, Small change) (same : w.listing = v.listing) : w = v :=
  Std.ExtTreeMap.toList_inj.1
    (selfDelimiting_listed.flatMap (fun change => listed_ne_nil change.1 change.2) hw hv same)

/-! ## Changes one after the other -/

/-- What the last of some changes does to a key. -/
def lastOp? (changes : List (StateKey × WriteOp)) (key : StateKey) : Option WriteOp :=
  (changes.reverse.find? fun change => change.1 = key).map Prod.snd

theorem lastOp?_concat (changes : List (StateKey × WriteOp)) (change : StateKey × WriteOp)
    (key : StateKey) :
    lastOp? (changes ++ [change]) key =
      if change.1 = key then some change.2 else lastOp? changes key := by
  by_cases same : change.1 = key <;> simp [lastOp?, same]

/-- What `ofList` leaves pending for a key is its last change, `lastOp?`. -/
theorem getElem?_ofList (changes : List (StateKey × WriteOp)) (key : StateKey) :
    (ofList changes)[key]? = lastOp? changes key := by
  induction changes using List.reverseRecOn with
  | nil => exact Std.ExtTreeMap.getElem?_empty
  | append_singleton changes change ih =>
    have last : ofList (changes ++ [change]) = (ofList changes).insert change.1 change.2 := by
      simp [ofList, List.foldl_append]
    rw [last, Std.ExtTreeMap.getElem?_insert, lastOp?_concat, ih]
    simp only [Std.compare_eq_iff_eq]

theorem mem_of_mem_toList_ofList {changes : List (StateKey × WriteOp)}
    {change : StateKey × WriteOp} (h : change ∈ (ofList changes).toList) : change ∈ changes := by
  obtain ⟨key, op⟩ := change
  rw [Std.ExtTreeMap.mem_toList_iff_getElem?_eq_some, getElem?_ofList] at h
  obtain ⟨found, mem, rfl⟩ := Option.map_eq_some_iff.1 h
  have same : found.1 = key := by simpa using List.find?_some mem
  have here := List.mem_of_find?_eq_some mem
  rw [List.mem_reverse] at here
  rw [← same]
  exact here

/-- **The digest commits to the changes.**  For two runs of changes that are `Small`, in
whatever order and with whatever keys changed again, the `listing`s of the write sets that
they leave are equal exactly if `lastOp?` is the same for every key, and unless the two
listings are a collision of `sha256`, so are the `digest`s. -/
theorem listing_eq_iff (changes others : List (StateKey × WriteOp))
    (small : ∀ change ∈ changes, Small change) (small' : ∀ change ∈ others, Small change) :
    let same := ∀ key, lastOp? changes key = lastOp? others key
    ((ofList changes).listing = (ofList others).listing ↔ same) ∧
      ((sha256 (ofList changes).listing = sha256 (ofList others).listing →
          (ofList changes).listing = (ofList others).listing) →
        ((ofList changes).digest = (ofList others).digest ↔ same)) := by
  intro same
  have listings : (ofList changes).listing = (ofList others).listing ↔ same := by
    constructor
    · intro equal key
      have sets : ofList changes = ofList others :=
        listing_injective (fun c mem => small c (mem_of_mem_toList_ofList mem))
          (fun c mem => small' c (mem_of_mem_toList_ofList mem)) equal
      rw [← getElem?_ofList, ← getElem?_ofList, sets]
    · intro last
      have sets : ofList changes = ofList others := by
        apply Std.ExtTreeMap.ext_getElem?
        intro key
        rw [getElem?_ofList, getElem?_ofList, last key]
      rw [sets]
  refine ⟨listings, fun free => ⟨fun digests => listings.1 (free digests), fun last => ?_⟩⟩
  rw [digest, digest, listings.2 last]

end WriteSet

namespace ForgedWrite

open WriteSet

/-- A delete beside a write. -/
def changes : List (StateKey × WriteOp) := [(⟨"a", "x"⟩, .put []), (⟨"a", "y"⟩, .delete)]

/-- A write of bytes that read like the delete. -/
def forged : List (StateKey × WriteOp) := [(⟨"a", "x"⟩, .put (listed ⟨"a", "y"⟩ .delete))]

theorem small_changes : ∀ change ∈ changes, Small change := by decide

theorem small_forged : ∀ change ∈ forged, Small change := by decide

/-- `listing_eq_iff` for the forged write, which is told apart from the two changes; these
may come in either order. -/
theorem listing_forged_ne :
    (∀ change ∈ forged, Small change) ∧ (∀ change ∈ changes, Small change) ∧
      (ofList forged).listing ≠ (ofList changes).listing ∧
      (ofList changes).listing = (ofList changes.reverse).listing := by
  refine ⟨small_forged, small_changes, fun equal => ?_, ?_⟩
  · have last := (listing_eq_iff forged changes small_forged small_changes).1.1 equal ⟨"a", "y"⟩
    exact absurd last (by decide)
  · have small : ∀ change ∈ changes.reverse, Small change := by
      intro change mem
      exact small_changes change (List.mem_reverse.1 mem)
    apply (listing_eq_iff changes changes.reverse small_changes small).1.2
    intro key
    by_cases x : (⟨"a", "x"⟩ : StateKey) = key
    · cases x
      rfl
    · by_cases y : (⟨"a", "y"⟩ : StateKey) = key <;> simp [lastOp?, changes, x, y]

end ForgedWrite

end LedgerScript
