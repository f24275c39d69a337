import LedgerScript.Json.Decode
import LedgerScript.Json.Document
import LedgerScript.Proofs.Sequence
import LedgerScript.Proofs.Text.Encoded

/-!
# What readers take

A reader takes some bytes when it passes over them, whatever comes behind them,
and returns a result (`Takes`).  A number ends only where no other digit can
follow, which is all that is ever asked of what comes behind a scalar (`Ended`).
Readers that look behind blanks first take the same with blanks in front
(`Takes.behind`).  Main statements: integers and strings are taken as they are written
(`takes_natural`, `takes_negative`, `takes_string`).
-/

namespace LedgerScript.Json

open Text (encoded numeral spelled IsDigit)

variable {α β : Type}

/-- In front of bytes of which `follow` holds, `x` takes `bytes` and returns `a`. -/
def Takes (follow : List UInt8 → Prop) (x : Read α) (bytes : List UInt8) (a : α) : Prop :=
  ∀ (rest : List UInt8) (place : Place), follow rest →
    ∃ next : Place, x ⟨bytes ++ rest, place⟩ = .ok a ⟨rest, next⟩

/-- No number goes on with these bytes. -/
def Ended (rest : List UInt8) : Prop :=
  ∀ b ∈ rest.head?, ¬ IsDigit b ∧ b ≠ 0x2e ∧ b ≠ 0x65 ∧ b ≠ 0x45

theorem ended_nil : Ended [] := by
  intro b mem
  cases mem

theorem ended_cons {b : UInt8} (h : ¬ IsDigit b ∧ b ≠ 0x2e ∧ b ≠ 0x65 ∧ b ≠ 0x45)
    (rest : List UInt8) : Ended (b :: rest) := by
  intro c mem
  cases mem
  exact h

section

variable {follow : List UInt8 → Prop} {x : Read α} {f : α → Read β} {bytes more : List UInt8}
  {a : α} {b : β}

theorem takes_pure (a : α) : Takes follow (pure a) [] a :=
  fun _ place _ => ⟨place, rfl⟩

theorem Takes.bind {between : List UInt8 → Prop} (hx : Takes between x bytes a)
    (hf : Takes follow (f a) more b) (glue : ∀ rest, follow rest → between (more ++ rest)) :
    Takes follow (x >>= f) (bytes ++ more) b := by
  intro rest place hr
  obtain ⟨mid, first⟩ := hx (more ++ rest) place (glue rest hr)
  obtain ⟨last, second⟩ := hf rest mid hr
  refine ⟨last, ?_⟩
  rw [List.append_assoc, bind_of_ok first]
  exact second

/-- `Takes` for a reader that looks ahead first. -/
theorem Takes.ahead {between : List UInt8 → Prop} (hx : Takes between x [] a)
    (hf : Takes follow (f a) more b) (glue : ∀ rest, follow rest → between (more ++ rest)) :
    Takes follow (x >>= f) more b :=
  hx.bind hf glue

/-- `Takes` for a reader whose result is only passed on. -/
theorem Takes.map (hx : Takes follow x bytes a) (g : α → β) :
    Takes follow (x >>= fun a => pure (g a)) bytes (g a) := by
  intro rest place hr
  obtain ⟨next, ran⟩ := hx rest place hr
  exact ⟨next, by rw [bind_of_ok ran]; rfl⟩

/-- `Takes` for a reader that takes its first byte whatever it is. -/
theorem Takes.skip {y : Read β} (hy : Takes follow y bytes b) (first : UInt8) :
    Takes follow (skip >>= fun _ => y) (first :: bytes) b := by
  intro rest place hr
  exact hy rest (place.after first) hr

end

/-! ## Looking ahead -/

theorem peekPastSpace_cons {b : UInt8} (dark : isSpace b = false) (rest : List UInt8)
    (place : Place) : peekPastSpace ⟨b :: rest, place⟩ = .ok (some b) ⟨b :: rest, place⟩ := by
  unfold peekPastSpace
  simp only [dropSpace]
  rw [dark]
  rfl

theorem peekValue_cons {b : UInt8} (dark : isSpace b = false) (rest : List UInt8)
    (place : Place) : peekValue ⟨b :: rest, place⟩ = .ok b ⟨b :: rest, place⟩ := by
  unfold peekValue
  rw [bind_of_ok (peekPastSpace_cons dark rest place)]
  rfl

/-- `Takes` for a reader that looks at its first byte and leaves it. -/
theorem Takes.peekValue {follow : List UInt8 → Prop} {f : UInt8 → Read β} {first : UInt8}
    {bytes : List UInt8} {b : β} (dark : isSpace first = false)
    (h : Takes follow (f first) (first :: bytes) b) :
    Takes follow (Json.peekValue >>= f) (first :: bytes) b := by
  intro rest place hr
  rw [List.cons_append, bind_of_ok (peekValue_cons dark _ place)]
  exact h rest place hr

theorem Takes.peekPastSpace {follow : List UInt8 → Prop} {f : Option UInt8 → Read β}
    {first : UInt8} {bytes : List UInt8} {b : β} (dark : isSpace first = false)
    (h : Takes follow (f (some first)) (first :: bytes) b) :
    Takes follow (Json.peekPastSpace >>= f) (first :: bytes) b := by
  intro rest place hr
  rw [List.cons_append, bind_of_ok (peekPastSpace_cons dark _ place)]
  exact h rest place hr

/-- Nothing but blanks of the grammar. -/
def Blank (bytes : List UInt8) : Prop := ∀ b ∈ bytes, isSpace b = true

theorem blank_nil : Blank [] := List.forall_mem_nil _

theorem dropSpace_append {blanks : List UInt8} (blank : Blank blanks) (rest : List UInt8)
    (place : Place) : ∃ next : Place, dropSpace (blanks ++ rest) place = dropSpace rest next := by
  induction blanks generalizing place with
  | nil => exact ⟨place, rfl⟩
  | cons b blanks ih =>
    obtain ⟨first, others⟩ := List.forall_mem_cons.1 blank
    obtain ⟨next, same⟩ := ih others (place.after b)
    refine ⟨next, ?_⟩
    rw [List.cons_append, dropSpace, if_pos first]
    exact same

/-- Blanks in front of what `x` reads do not count. -/
def SkipsBlanks (x : Read α) : Prop :=
  ∀ blanks : List UInt8, Blank blanks → ∀ (rest : List UInt8) (place : Place),
    ∃ next : Place, x ⟨blanks ++ rest, place⟩ = x ⟨rest, next⟩

theorem skipsBlanks_peekPastSpace : SkipsBlanks Json.peekPastSpace := by
  intro blanks blank rest place
  obtain ⟨next, same⟩ := dropSpace_append blank rest place
  refine ⟨next, ?_⟩
  unfold Json.peekPastSpace
  dsimp only
  rw [same]

theorem SkipsBlanks.bind {x : Read α} (h : SkipsBlanks x) (f : α → Read β) :
    SkipsBlanks (x >>= f) := by
  intro blanks blank rest place
  obtain ⟨next, same⟩ := h blanks blank rest place
  refine ⟨next, ?_⟩
  change EStateM.bind x f _ = EStateM.bind x f _
  unfold EStateM.bind
  rw [same]

theorem skipsBlanks_peekValue : SkipsBlanks Json.peekValue :=
  skipsBlanks_peekPastSpace.bind _

/-- `Takes` behind blanks. -/
theorem Takes.behind {follow : List UInt8 → Prop} {x : Read α} {blanks bytes : List UInt8} {a : α}
    (h : Takes follow x bytes a) (skips : SkipsBlanks x) (blank : Blank blanks) :
    Takes follow x (blanks ++ bytes) a := by
  intro rest place hr
  obtain ⟨mid, same⟩ := skips blanks blank (bytes ++ rest) place
  rw [List.append_assoc, same]
  exact h rest mid hr

/-- `Takes` for a reader that only looks at what is behind the blanks. -/
theorem Takes.past {follow : List UInt8 → Prop} {x : Read α} {blanks : List UInt8} {a : α}
    (h : Takes follow x [] a) (skips : SkipsBlanks x) (blank : Blank blanks) :
    Takes follow x blanks a := by
  have taken := h.behind skips blank
  rw [List.append_nil] at taken
  exact taken

/-- `located` only places faults, so what is taken is taken through it. -/
theorem Takes.located {follow : List UInt8 → Prop} {x : Read α} {bytes : List UInt8} {a : α}
    (h : Takes follow x bytes a) : Takes follow (Json.located x) bytes a := by
  intro rest place hr
  obtain ⟨next, ran⟩ := h rest place hr
  refine ⟨next, ?_⟩
  unfold Json.located
  rw [ran]

theorem Takes.enclosed {follow between : List UInt8 → Prop} {x : Read α} {finish : Read Unit}
    {bytes more : List UInt8} {a : α} (hx : Takes between x bytes a)
    (hf : Takes follow finish more ()) (glue : ∀ rest, follow rest → between (more ++ rest)) :
    Takes follow (Json.enclosed x finish) (bytes ++ more) a := by
  intro rest place hr
  obtain ⟨mid, first⟩ := hx (more ++ rest) place (glue rest hr)
  obtain ⟨last, second⟩ := hf rest mid hr
  refine ⟨last, ?_⟩
  unfold Json.enclosed
  rw [List.append_assoc, first]
  dsimp only
  rw [second]

/-- A reader of many turns has enough of them for its own bytes. -/
theorem takes_turns {follow : List UInt8 → Prop} {f : Nat → Read β} {bytes : List UInt8} {b : β}
    (h : ∀ n, bytes.length < n → Takes follow (f n) bytes b) :
    Takes follow (turns >>= f) bytes b := by
  intro rest place hr
  have enough : bytes.length < (bytes ++ rest).length + 1 := by
    rw [List.length_append]
    omega
  exact h _ enough rest place hr

theorem takes_literal (follow : List UInt8 → Prop) (bytes : List UInt8) :
    Takes follow (literal bytes) bytes () := by
  induction bytes with
  | nil => exact takes_pure ()
  | cons b rest ih =>
    intro behind place hr
    obtain ⟨next, ran⟩ := ih behind (place.after b) hr
    refine ⟨next, ?_⟩
    unfold literal
    rw [bind_of_ok (x := Json.next) (a := some b) (t := ⟨rest ++ behind, place.after b⟩) rfl]
    dsimp only
    rw [if_pos rfl]
    exact ran

/-! ## Numbers -/

theorem digit?_of_isDigit {b : UInt8} (h : IsDigit b) : digit? b = some (b.toNat - 0x30) := by
  obtain ⟨low, high⟩ := h
  unfold digit?
  have within : (0x30 ≤ b && b ≤ 0x39) = true := by
    rw [Bool.and_eq_true, decide_eq_true_iff, decide_eq_true_iff, UInt8.le_iff_toNat_le,
      UInt8.le_iff_toNat_le]
    exact ⟨low, high⟩
  rw [if_pos within]

theorem digit?_of_not_isDigit {b : UInt8} (h : ¬ IsDigit b) : digit? b = none := by
  unfold digit?
  refine if_neg fun within => h ?_
  rw [Bool.and_eq_true, decide_eq_true_iff, decide_eq_true_iff, UInt8.le_iff_toNat_le,
    UInt8.le_iff_toNat_le] at within
  exact within

theorem isSpace_of_isDigit {b : UInt8} (h : IsDigit b) : isSpace b = false := by
  have apart : ∀ c : UInt8, c.toNat < 0x30 → b ≠ c := by
    rintro c low rfl
    exact absurd h.1 (Nat.not_le.2 low)
  unfold isSpace
  simp [apart 0x20 (by decide), apart 0x0a (by decide), apart 0x09 (by decide),
    apart 0x0d (by decide)]

theorem peekDigit_of_ended {rest : List UInt8} (h : Ended rest) (place : Place) :
    peekDigit ⟨rest, place⟩ = .ok none ⟨rest, place⟩ := by
  cases rest with
  | nil => rfl
  | cons b rest =>
    change EStateM.Result.ok (digit? b) _ = _
    rw [digit?_of_not_isDigit (h b rfl).1]

theorem peekDigit_cons {b : UInt8} (h : IsDigit b) (rest : List UInt8) (place : Place) :
    peekDigit ⟨b :: rest, place⟩ = .ok (some (b.toNat - 0x30)) ⟨b :: rest, place⟩ := by
  change EStateM.Result.ok (digit? b) _ = _
  rw [digit?_of_isDigit h]

/-- Digits that spell a word are taken one by one. -/
theorem takes_wordDigits {digits : List UInt8} (all : ∀ b ∈ digits, IsDigit b)
    {value count n : Nat} (enough : digits.length < n) (fits : spelled value digits ≤ maxWord) :
    Takes Ended (wordDigits value count n) digits
      (spelled value digits, count + digits.length, false) := by
  induction digits generalizing value count n with
  | nil =>
    intro rest place ended
    obtain ⟨n, rfl⟩ := Nat.exists_eq_add_of_lt enough
    refine ⟨place, ?_⟩
    unfold wordDigits
    rw [List.nil_append, bind_of_ok (peekDigit_of_ended ended place)]
    rfl
  | cons b rest ih =>
    intro behind place ended
    obtain ⟨first, others⟩ := List.forall_mem_cons.1 all
    obtain ⟨n, rfl⟩ : ∃ m, n = m + 1 := ⟨n - 1, by omega⟩
    have below : rest.length < n := by
      rw [List.length_cons] at enough
      omega
    have room : value * 10 + (b.toNat - 0x30) ≤ maxWord :=
      Nat.le_trans (Text.le_spelled _ rest) fits
    have taken : Takes Ended (wordDigits (value * 10 + (b.toNat - 0x30)) (count + 1) n) rest
        (spelled value (b :: rest), count + 1 + rest.length, false) := ih others below fits
    obtain ⟨next, ran⟩ := taken behind (place.after b) ended
    refine ⟨next, ?_⟩
    unfold wordDigits
    rw [List.cons_append, bind_of_ok (peekDigit_cons first _ place)]
    dsimp only
    rw [if_pos room]
    have length : count + (b :: rest).length = count + 1 + rest.length := by
      rw [List.length_cons]
      omega
    rw [length]
    exact ran

theorem atExponent_of_ended {rest : List UInt8} (h : Ended rest) (place : Place) :
    atExponent ⟨rest, place⟩ = .ok false ⟨rest, place⟩ := by
  have lower : rest.head? ≠ some 0x65 := fun eq => (h _ eq).2.2.1 rfl
  have upper : rest.head? ≠ some 0x45 := fun eq => (h _ eq).2.2.2 rfl
  unfold atExponent
  rw [bind_of_ok (x := peek) (a := rest.head?) (t := ⟨rest, place⟩) rfl]
  generalize rest.head? = first at lower upper
  split
  · exact absurd rfl lower
  · exact absurd rfl upper
  · rfl

/-- An integer that nothing follows. -/
theorem numberRest_of_ended (positive : Bool) (significand : Nat) {rest : List UInt8}
    (h : Ended rest) (place : Place) :
    numberRest positive significand ⟨rest, place⟩ =
      .ok (if positive then .natural significand
        else if significand = 0 ∨ 0x8000000000000000 < significand then
          .real (-significand.toUInt64.toFloat)
        else .negative (-significand)) ⟨rest, place⟩ := by
  have point : rest.head? ≠ some 0x2e := fun eq => (h _ eq).2.1 rfl
  have plain := atExponent_of_ended h place
  unfold numberRest
  rw [bind_of_ok (x := peek) (a := rest.head?) (t := ⟨rest, place⟩) rfl]
  generalize rest.head? = first at point
  split
  · exact absurd rfl point
  · rw [bind_of_ok plain, if_neg Bool.false_ne_true]
    split
    · rfl
    · split <;> rfl

/-- A number that is not zero, up to its end. -/
theorem number_of_numeral (positive : Bool) {n : Nat} (nonzero : 0 < n) (fits : n ≤ maxWord)
    {rest : List UInt8} (ended : Ended rest) (place : Place) :
    ∃ next : Place, number positive ⟨numeral n ++ rest, place⟩ =
      numberRest positive n ⟨rest, next⟩ := by
  obtain ⟨d, digits, eq, positive', below, all, value⟩ := Text.exists_numeral nonzero
  have first : IsDigit (UInt8.ofNat (0x30 + d)) := by
    unfold IsDigit
    rw [Text.toNat_digit below]
    omega
  have known : digit? (UInt8.ofNat (0x30 + d)) = some d := by
    rw [digit?_of_isDigit first, Text.toNat_digit below, Nat.add_sub_cancel_left]
  have taken : Takes Ended (turns >>= fun n => wordDigits d 0 n) digits
      (n, 0 + digits.length, false) := by
    refine takes_turns fun m enough => ?_
    have read :
        Takes Ended (wordDigits d 0 m) digits (spelled d digits, 0 + digits.length, false) :=
      takes_wordDigits all enough (value ▸ fits)
    rw [value] at read
    exact read
  obtain ⟨next, ran⟩ := taken rest (place.after (UInt8.ofNat (0x30 + d))) ended
  refine ⟨next, ?_⟩
  rw [eq]
  unfold number
  rw [bind_of_ok (x := Json.next) (a := some (UInt8.ofNat (0x30 + d)))
    (t := ⟨digits ++ rest, place.after (UInt8.ofNat (0x30 + d))⟩) rfl]
  dsimp only
  rw [known]
  generalize ho : some d = o
  split
  · cases ho
  · cases ho
    omega
  · cases ho
    rw [← bind_assoc, bind_of_ok ran]
    rfl

theorem digits_ofNat (n : Nat) : encoded (Document.digits (Int.ofNat n)) = numeral n := by
  unfold Document.digits numeral
  change encoded (Nat.repr n).toList = _
  rw [Nat.toList_repr]

theorem digits_negSucc (n : Nat) :
    encoded (Document.digits (Int.negSucc n)) = 0x2d :: numeral (n + 1) := by
  unfold Document.digits numeral
  change encoded ("-" ++ Nat.repr (n + 1)).toList = _
  rw [String.toList_append, Nat.toList_repr, Text.encoded_append]
  rfl

theorem takes_natural {n : Nat} (fits : n ≤ maxWord) :
    Takes Ended (number true) (numeral n) (.natural n) := by
  intro rest place ended
  by_cases zero : n = 0
  · subst zero
    refine ⟨place.after 0x30, ?_⟩
    have digits : numeral 0 = [0x30] := Text.numeral_of_lt (by omega)
    rw [digits]
    unfold number
    rw [bind_of_ok (x := next) (a := some 0x30) (t := ⟨rest, place.after 0x30⟩) rfl]
    change (peekDigit >>= _) _ = _
    rw [bind_of_ok (peekDigit_of_ended ended _)]
    exact numberRest_of_ended true 0 ended _
  · obtain ⟨next, ran⟩ := number_of_numeral true (Nat.pos_of_ne_zero zero) fits ended place
    exact ⟨next, ran.trans (numberRest_of_ended true n ended next)⟩

theorem takes_negative {n : Nat} (nonzero : 0 < n) (fits : n ≤ 0x8000000000000000) :
    Takes Ended (number false) (numeral n) (.negative (-n)) := by
  intro rest place ended
  have word : n ≤ maxWord := Nat.le_trans fits (by decide)
  obtain ⟨next, ran⟩ := number_of_numeral false nonzero word ended place
  refine ⟨next, ran.trans ?_⟩
  rw [numberRest_of_ended false n ended next, if_neg Bool.false_ne_true, if_neg (by omega)]

theorem takes_readNat (type : String) {max n : Nat} (fits : n ≤ max) (word : max ≤ maxWord) :
    Takes Ended (readNat type max) (numeral n) n := by
  have read := takes_natural (Nat.le_trans fits word)
  obtain ⟨b, digits, eq, digit⟩ := Text.exists_digit_numeral n
  have sign : b ≠ 0x2d := by
    rintro rfl
    exact absurd digit (by decide)
  rw [eq] at read ⊢
  refine .peekValue (isSpace_of_isDigit digit) (.located ?_)
  rw [if_neg sign, if_pos (by rw [digit?_of_isDigit digit]; rfl)]
  intro rest place ended
  obtain ⟨next, ran⟩ := read rest place ended
  refine ⟨next, ?_⟩
  rw [bind_of_ok ran]
  dsimp only
  rw [if_pos fits]
  rfl

theorem takes_readWord (type : String) (n : UInt64) :
    Takes Ended (readWord type) (numeral n.toNat) n := by
  have below : n.toNat ≤ 0xffffffffffffffff := Nat.le_of_lt_succ n.toNat_lt
  have read := (takes_readNat type below (Nat.le_refl _)).map UInt64.ofNat
  rw [UInt64.ofNat_toNat] at read
  exact read

theorem takes_readShort (n : UInt16) : Takes Ended readShort (numeral n.toNat) n := by
  have below : n.toNat ≤ 0xffff := Nat.le_of_lt_succ n.toNat_lt
  have read := (takes_readNat "u16" below (by decide)).map UInt16.ofNat
  rw [UInt16.ofNat_toNat] at read
  exact read

/-! ## Strings -/

theorem takes_shortEscape {follow : List UInt8 → Prop} {b byte : UInt8}
    (h : shortEscape? b = some byte) : Takes follow escape [b] [byte] := by
  intro rest place _
  refine ⟨place.after b, ?_⟩
  unfold escape
  rw [List.singleton_append,
    bind_of_ok (x := next) (a := some b) (t := ⟨rest, place.after b⟩) rfl]
  dsimp only
  rw [h]
  rfl

theorem exists_numbered {c : Char} (control : c.toNat < 0x20) :
    ∃ high low : UInt8, encoded (numbered c) = [0x5c, 0x75, 0x30, 0x30, high, low] ∧
      Text.Hex.value? high = some (c.toNat / 16) ∧ Text.Hex.value? low = some (c.toNat % 16) := by
  have digits : ∀ n : Fin 0x20,
      let high := UInt8.ofNat (Text.Hex.digit (n.val / 16)).toNat
      let low := UInt8.ofNat (Text.Hex.digit (n.val % 16)).toNat
      encoded (numbered (Char.ofNat n)) = [0x5c, 0x75, 0x30, 0x30, high, low] ∧
        Text.Hex.value? high = some (n.val / 16) ∧ Text.Hex.value? low = some (n.val % 16) := by
    decide
  have own := digits ⟨c.toNat, control⟩
  dsimp only at own
  rw [Char.ofNat_toNat] at own
  exact ⟨_, _, own⟩

theorem takes_numberedEscape {follow : List UInt8 → Prop} {c : Char} (control : c.toNat < 0x20)
    {high low : UInt8} (hh : Text.Hex.value? high = some (c.toNat / 16))
    (hl : Text.Hex.value? low = some (c.toNat % 16)) :
    Takes follow escape [0x75, 0x30, 0x30, high, low] (String.utf8EncodeChar c) := by
  intro rest place _
  have zero : Text.Hex.value? 0x30 = some 0 := by decide
  have point : ((0 * 16 + 0) * 16 + c.toNat / 16) * 16 + c.toNat % 16 = c.toNat := by omega
  let last := ((((place.after 0x75).after 0x30).after 0x30).after high).after low
  have four : hexEscape ⟨0x30 :: 0x30 :: high :: low :: rest, place.after 0x75⟩ =
      .ok c.toNat ⟨rest, last⟩ := by
    unfold hexEscape
    dsimp only
    rw [zero, hh, hl]
    dsimp only
    rw [point]
    rfl
  have whole : numberedEscape ⟨0x30 :: 0x30 :: high :: low :: rest, place.after 0x75⟩ =
      .ok c.toNat ⟨rest, last⟩ := by
    unfold numberedEscape
    rw [bind_of_ok four, if_neg (by omega), if_neg (by omega)]
    rfl
  refine ⟨last, ?_⟩
  have read := bind_of_ok (f := fun n => pure (String.utf8EncodeChar (Char.ofNat n))) whole
  rw [Char.ofNat_toNat] at read
  exact read

theorem takes_short {follow : List UInt8 → Prop} {c : Char} {b : UInt8}
    (narrow : c.toNat ≤ 0x7f) (h : shortEscape? b = some (UInt8.ofNat c.toNat)) :
    Takes follow escape [b] (String.utf8EncodeChar c) := by
  rw [Text.utf8EncodeChar_of_le narrow]
  exact takes_shortEscape h

/-- The bytes of a character that needs no escape need none. -/
theorem plain_of_mem_utf8EncodeChar {c : Char} (quote : c ≠ '"') (backslash : c ≠ '\\')
    (printed : ¬ c.toNat < 0x20) {b : UInt8} (mem : b ∈ String.utf8EncodeChar c) :
    b ≠ 0x22 ∧ b ≠ 0x5c ∧ ¬ b < 0x20 := by
  by_cases narrow : c.toNat ≤ 0x7f
  · rw [Text.utf8EncodeChar_of_le narrow] at mem
    obtain rfl := List.mem_singleton.1 mem
    have number : (UInt8.ofNat c.toNat).toNat = c.toNat := by
      rw [UInt8.toNat_ofNat', Nat.mod_eq_of_lt (by omega)]
    refine ⟨fun eq => quote ?_, fun eq => backslash ?_, fun low => printed ?_⟩
    · rw [← Char.ofNat_toNat c, ← number, eq]
      rfl
    · rw [← Char.ofNat_toNat c, ← number, eq]
      rfl
    · rw [UInt8.lt_iff_toNat_lt, number] at low
      exact low
  · have high := Text.le_of_mem_utf8EncodeChar (Nat.lt_of_not_le narrow) mem
    rw [UInt8.le_iff_toNat_le] at high
    have wide : 0x80 ≤ b.toNat := high
    refine ⟨fun eq => ?_, fun eq => ?_, fun low => ?_⟩
    · rw [eq] at wide
      exact absurd wide (by decide)
    · rw [eq] at wide
      exact absurd wide (by decide)
    · rw [UInt8.lt_iff_toNat_lt] at low
      exact absurd (Nat.lt_of_le_of_lt wide low) (by decide)

/-- A character is written as an escape that stands for it, or as itself. -/
theorem written_cases (c : Char) :
    (∃ tail, encoded (written c) = 0x5c :: tail ∧
        ∀ follow, Takes follow escape tail (String.utf8EncodeChar c)) ∨
      encoded (written c) = String.utf8EncodeChar c ∧
        ∀ b ∈ String.utf8EncodeChar c, b ≠ 0x22 ∧ b ≠ 0x5c ∧ ¬ b < 0x20 := by
  fun_cases written c
  case case8 control =>
    obtain ⟨high, low, eq, hh, hl⟩ := exists_numbered control
    exact .inl ⟨_, eq, fun _ => takes_numberedEscape control hh hl⟩
  case case9 quote backslash _ _ _ _ _ printed =>
    exact .inr ⟨List.append_nil _, fun b => plain_of_mem_utf8EncodeChar quote backslash printed⟩
  all_goals
    subst_vars
    exact .inl ⟨_, rfl, fun _ => takes_short (by decide) rfl⟩

/-- Plain bytes are taken one by one, each in a turn. -/
theorem stringBytes_append {bytes : List UInt8}
    (plain : ∀ b ∈ bytes, b ≠ 0x22 ∧ b ≠ 0x5c ∧ ¬ b < 0x20) (taken rest : List UInt8)
    (n : Nat) (place : Place) :
    ∃ next : Place, stringBytes taken (bytes.length + n) ⟨bytes ++ rest, place⟩ =
      stringBytes (bytes.reverse ++ taken) n ⟨rest, next⟩ := by
  induction bytes generalizing taken place with
  | nil => exact ⟨place, by rw [List.length_nil, Nat.zero_add]; rfl⟩
  | cons b bs ih =>
    obtain ⟨⟨quote, backslash, printed⟩, others⟩ := List.forall_mem_cons.1 plain
    obtain ⟨next, ran⟩ := ih others (b :: taken) (place.after b)
    refine ⟨next, ?_⟩
    rw [List.length_cons, Nat.add_right_comm, List.reverse_cons, List.append_assoc,
      List.singleton_append, ← ran]
    conv => lhs; unfold stringBytes
    rw [List.cons_append,
      bind_of_ok (x := Json.next) (a := some b) (t := ⟨bs ++ rest, place.after b⟩) rfl]
    dsimp only
    rw [if_neg quote, if_neg backslash, if_neg printed]

/-- Escapes and plain characters are taken up to the closing quote. -/
theorem stringBytes_written (cs : List Char) (taken rest : List UInt8) {n : Nat}
    (enough : (encoded (cs.flatMap written)).length < n) (place : Place) :
    ∃ next : Place,
      stringBytes taken n ⟨encoded (cs.flatMap written) ++ 0x22 :: rest, place⟩ =
        .ok (taken.reverse ++ encoded cs) ⟨rest, next⟩ := by
  induction cs generalizing taken n place with
  | nil =>
    obtain ⟨n, rfl⟩ : ∃ m, n = m + 1 := ⟨n - 1, by omega⟩
    refine ⟨place.after 0x22, ?_⟩
    unfold stringBytes
    rw [Text.encoded_nil, List.append_nil]
    rfl
  | cons c cs ih =>
    rw [List.flatMap_cons, Text.encoded_append] at enough ⊢
    rw [List.length_append] at enough
    rw [Text.encoded_cons, List.append_assoc]
    rcases written_cases c with ⟨tail, eq, takes⟩ | ⟨eq, plain⟩
    · rw [eq, List.length_cons] at enough
      obtain ⟨n, rfl⟩ : ∃ m, n = m + 1 := ⟨n - 1, by omega⟩
      obtain ⟨mid, escaped⟩ := takes (fun _ => True)
        (encoded (cs.flatMap written) ++ 0x22 :: rest) (place.after 0x5c) trivial
      obtain ⟨next, ran⟩ := ih ((String.utf8EncodeChar c).reverse ++ taken) (n := n)
        (by omega) mid
      refine ⟨next, ?_⟩
      rw [List.reverse_append, List.reverse_reverse, List.append_assoc] at ran
      rw [eq, ← ran, List.cons_append]
      conv => lhs; unfold stringBytes
      rw [bind_of_ok (x := Json.next) (a := some 0x5c) (t := ⟨tail ++ (encoded
        (cs.flatMap written) ++ 0x22 :: rest), place.after 0x5c⟩) rfl]
      change (escape >>= fun bytes => stringBytes (bytes.reverse ++ taken) n) _ = _
      rw [bind_of_ok escaped]
    · rw [eq] at enough ⊢
      obtain ⟨n, rfl⟩ : ∃ m, n = (String.utf8EncodeChar c).length + m :=
        ⟨n - (String.utf8EncodeChar c).length, by omega⟩
      obtain ⟨mid, first⟩ := stringBytes_append plain taken
        (encoded (cs.flatMap written) ++ 0x22 :: rest) n place
      obtain ⟨next, ran⟩ := ih ((String.utf8EncodeChar c).reverse ++ taken) (n := n)
        (by omega) mid
      refine ⟨next, first.trans ?_⟩
      rw [List.reverse_append, List.reverse_reverse, List.append_assoc] at ran
      exact ran

theorem encoded_string (s : String) :
    encoded (string s) = 0x22 :: (encoded (s.toList.flatMap written) ++ [0x22]) := by
  unfold string
  rw [List.cons_append, Text.encoded_cons, Text.encoded_append]
  rfl

/-- `stringRest` takes a string as it is written, behind its opening quote. -/
theorem takes_stringRest (follow : List UInt8 → Prop) (s : String) :
    Takes follow stringRest (encoded (s.toList.flatMap written) ++ [0x22]) s := by
  have text : Takes follow (stringText (encoded s.toList)) [] s := by
    intro rest place _
    refine ⟨place, ?_⟩
    unfold stringText
    rw [← Text.utf8_eq, Text.ofUtf8_utf8]
    rfl
  unfold stringRest
  refine takes_turns fun n enough => ?_
  rw [List.length_append] at enough
  have bytes : Takes follow (stringBytes [] n) (encoded (s.toList.flatMap written) ++ [0x22])
      (encoded s.toList) := by
    intro rest place _
    rw [List.append_assoc]
    exact stringBytes_written s.toList [] rest (by omega) place
  have whole := bytes.bind text fun _ hr => hr
  rw [List.append_nil] at whole
  exact whole

theorem takes_string (follow : List UInt8 → Prop) (s : String) :
    Takes follow (skip >>= fun _ => stringRest) (encoded (string s)) s := by
  rw [encoded_string]
  exact (takes_stringRest follow s).skip 0x22

theorem takes_readString (follow : List UInt8 → Prop) (s : String) :
    Takes follow readString (encoded (string s)) s := by
  have read := takes_string follow s
  rw [encoded_string] at read ⊢
  refine .peekValue rfl ?_
  rw [if_pos rfl]
  exact read.located

/-! ## Whole documents -/

/-- `decodeBytes` gives what is taken from a document with all the room there is. -/
theorem decodeBytes_of_takes {value : Nat → Read α} {bytes : List UInt8} {a : α}
    (h : Takes Ended (value maxNesting) bytes a) : decodeBytes value bytes = .ok a := by
  obtain ⟨next, ran⟩ := h [] .start ended_nil
  rw [List.append_nil] at ran
  unfold decodeBytes wholeDocument
  rw [bind_of_ok (t := ⟨[], next⟩) ran]
  rfl

end LedgerScript.Json
