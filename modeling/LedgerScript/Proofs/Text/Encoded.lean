import LedgerScript.Text.Hex
import LedgerScript.Text.Utf8

/-!
# The bytes of characters

The bytes of a text are those of its characters, one after the other
(`utf8_eq`).  A character of ASCII is the byte of its number
(`utf8EncodeChar_of_le`), and no other character has a byte of ASCII in it
(`le_of_mem_utf8EncodeChar`).  Different bytes have different hexadecimal digits
(`hex_injective`).
-/

namespace LedgerScript.Text

/-- The bytes of characters. -/
def encoded (cs : List Char) : List UInt8 := cs.flatMap String.utf8EncodeChar

@[simp] theorem encoded_nil : encoded [] = [] := rfl

@[simp] theorem encoded_cons (c : Char) (cs : List Char) :
    encoded (c :: cs) = String.utf8EncodeChar c ++ encoded cs := rfl

@[simp] theorem encoded_append (cs ds : List Char) :
    encoded (cs ++ ds) = encoded cs ++ encoded ds :=
  List.flatMap_append

theorem utf8_ofList (cs : List Char) : utf8 (String.ofList cs) = encoded cs := by
  unfold utf8 encoded
  rw [String.toUTF8_eq_toByteArray, String.toByteArray_ofList, List.utf8Encode]
  simp

theorem utf8_eq (s : String) : utf8 s = encoded s.toList := by
  rw [← utf8_ofList, String.ofList_toList]

theorem utf8EncodeChar_of_le {c : Char} (narrow : c.toNat ≤ 0x7f) :
    String.utf8EncodeChar c = [UInt8.ofNat c.toNat] := by
  unfold String.utf8EncodeChar
  exact if_pos narrow

theorem le_of_mem_utf8EncodeChar {c : Char} {b : UInt8} (wide : 0x7f < c.toNat)
    (h : b ∈ String.utf8EncodeChar c) : 0x80 ≤ b := by
  have high : ∀ n : Nat, 0x80 ≤ n → n < 0x100 → (0x80 : UInt8) ≤ UInt8.ofNat n := by
    intro n low top
    rw [UInt8.le_iff_toNat_le, UInt8.toNat_ofNat', Nat.mod_eq_of_lt top]
    exact low
  unfold String.utf8EncodeChar at h
  dsimp only at h
  rw [if_neg (show ¬ c.val.toNat ≤ 0x7f from Nat.not_le.2 wide)] at h
  split at h
  · simp only [List.mem_cons, List.not_mem_nil, or_false] at h
    rcases h with rfl | rfl <;> exact high _ (by omega) (by omega)
  · split at h <;> simp only [List.mem_cons, List.not_mem_nil, or_false] at h
    · rcases h with rfl | rfl | rfl <;> exact high _ (by omega) (by omega)
    · rcases h with rfl | rfl | rfl | rfl <;> exact high _ (by omega) (by omega)

/-! ## Numerals -/

/-- The bytes of a natural number in decimal digits. -/
def numeral (n : Nat) : List UInt8 := encoded (Nat.toDigits 10 n)

/-- The number that digits spell behind those of `value`. -/
def spelled (value : Nat) (digits : List UInt8) : Nat :=
  digits.foldl (fun value b => value * 10 + (b.toNat - 0x30)) value

/-- The byte of a decimal digit. -/
def IsDigit (b : UInt8) : Prop := 0x30 ≤ b.toNat ∧ b.toNat ≤ 0x39

instance (b : UInt8) : Decidable (IsDigit b) := inferInstanceAs (Decidable (_ ∧ _))

theorem utf8EncodeChar_digitChar {d : Nat} (h : d < 10) :
    String.utf8EncodeChar (Nat.digitChar d) = [UInt8.ofNat (0x30 + d)] := by
  have all : ∀ d : Fin 10,
      String.utf8EncodeChar (Nat.digitChar d.val) = [UInt8.ofNat (0x30 + d.val)] := by decide
  exact all ⟨d, h⟩

theorem toNat_digit {d : Nat} (h : d < 10) : (UInt8.ofNat (0x30 + d)).toNat = 0x30 + d := by
  rw [UInt8.toNat_ofNat', Nat.mod_eq_of_lt (by omega)]

theorem numeral_of_lt {n : Nat} (h : n < 10) : numeral n = [UInt8.ofNat (0x30 + n)] := by
  unfold numeral
  rw [Nat.toDigits_of_lt_base h, encoded_cons, utf8EncodeChar_digitChar h]
  rfl

theorem numeral_of_le {n : Nat} (h : 10 ≤ n) :
    numeral n = numeral (n / 10) ++ [UInt8.ofNat (0x30 + n % 10)] := by
  unfold numeral
  rw [Nat.toDigits_of_base_le (by omega) h, encoded_append, encoded_cons,
    utf8EncodeChar_digitChar (Nat.mod_lt _ (by omega))]
  rfl

/-- The `numeral` of a number above zero begins with a digit that is not zero and goes on
to spell the number. -/
theorem exists_numeral {n : Nat} (h : 0 < n) :
    ∃ d digits, numeral n = UInt8.ofNat (0x30 + d) :: digits ∧ 0 < d ∧ d < 10 ∧
      (∀ b ∈ digits, IsDigit b) ∧ spelled d digits = n := by
  induction n using Nat.strongRecOn with
  | ind n ih =>
    by_cases small : n < 10
    · exact ⟨n, [], numeral_of_lt small, h, small, List.forall_mem_nil _, rfl⟩
    · obtain ⟨d, digits, eq, positive, below, all, value⟩ := ih (n / 10) (by omega) (by omega)
      have last : n % 10 < 10 := Nat.mod_lt _ (by omega)
      refine ⟨d, digits ++ [UInt8.ofNat (0x30 + n % 10)], ?_, positive, below, ?_, ?_⟩
      · rw [numeral_of_le (by omega), eq]
        rfl
      · intro b mem
        rcases List.mem_append.1 mem with mem | mem
        · exact all b mem
        · rw [List.mem_singleton.1 mem]
          unfold IsDigit
          rw [toNat_digit last]
          omega
      · unfold spelled at value ⊢
        rw [List.foldl_append, value, List.foldl_cons, List.foldl_nil, toNat_digit last]
        omega

theorem exists_digit_numeral (n : Nat) :
    ∃ b digits, numeral n = b :: digits ∧ IsDigit b := by
  by_cases zero : n = 0
  · subst zero
    exact ⟨0x30, [], rfl, by decide⟩
  · obtain ⟨d, digits, eq, -, below, -⟩ := exists_numeral (Nat.pos_of_ne_zero zero)
    refine ⟨_, digits, eq, ?_⟩
    unfold IsDigit
    rw [toNat_digit below]
    omega

theorem le_spelled (value : Nat) (digits : List UInt8) : value ≤ spelled value digits := by
  induction digits generalizing value with
  | nil => exact Nat.le_refl value
  | cons b rest ih =>
    have next := ih (value * 10 + (b.toNat - 0x30))
    have more : value ≤ value * 10 + (b.toNat - 0x30) := by omega
    exact Nat.le_trans more next

/-! ## Hexadecimal digits -/

theorem exists_hexDigit {n : Nat} (h : n < 16) :
    ∃ b : UInt8, String.utf8EncodeChar (Hex.digit n) = [b] ∧ Hex.value? b = some n := by
  have all : ∀ n : Fin 16,
      let b := UInt8.ofNat (Hex.digit n.val).toNat
      String.utf8EncodeChar (Hex.digit n.val) = [b] ∧ Hex.value? b = some n.val := by decide
  exact ⟨_, all ⟨n, h⟩⟩

theorem readPairs_encoded (index : Nat) (bytes : List UInt8) :
    Hex.readPairs index (encoded (bytes.flatMap Hex.pair)) = .ok bytes := by
  induction bytes generalizing index with
  | nil => rfl
  | cons b rest ih =>
    have bound := b.toNat_lt
    obtain ⟨high, hhigh, high?⟩ := exists_hexDigit (n := b.toNat / 16) (by omega)
    obtain ⟨low, hlow, low?⟩ := exists_hexDigit (n := b.toNat % 16) (by omega)
    have whole : b.toNat / 16 * 16 + b.toNat % 16 = b.toNat := by omega
    have digits : encoded (Hex.pair b) = [high, low] := by
      unfold Hex.pair
      rw [encoded_cons, encoded_cons, hhigh, hlow]
      rfl
    rw [List.flatMap_cons, encoded_append, digits, List.cons_append, List.cons_append,
      List.nil_append]
    unfold Hex.readPairs
    rw [high?, low?]
    dsimp only
    rw [ih, whole, UInt8.ofNat_toNat]
    rfl

/-- `hex` of different bytes is different. -/
theorem hex_injective {a b : List UInt8} (h : hex a = hex b) : a = b := by
  have read := readPairs_encoded 0 a
  rw [← utf8_ofList] at read
  change Hex.readPairs 0 (utf8 (hex a)) = _ at read
  rw [h, hex, utf8_ofList, readPairs_encoded] at read
  exact (Except.ok.inj read).symm

end LedgerScript.Text
