import LedgerScript.Proofs.Script.Reading

/-!
# Spellings of tokens

Every token has spellings (`Spells`).  A spelling with a blank behind it is cut off
as its token, whatever follows (`piece_of_spells`).
-/

namespace LedgerScript.Script

open Text (isBlank readDigits)

/-- A name begins with a letter, and is not a reserved word. -/
def isName (s : String) : Bool :=
  match s.toList with
  | [] => false
  | c :: rest =>
    Lexer.isNameStart c && rest.all Lexer.isNamePart && (Keyword.ofWord? s).isNone

/-- A character of a string as it is written between quotes. -/
def escaped (quote c : Char) : List Char :=
  if c = '\n' then ['\\', 'n']
  else if c = '\\' then ['\\', '\\']
  else if c = quote then ['\\', quote]
  else [c]

/-- `Spells text t`: the characters of `text` spell the token `t`. -/
inductive Spells : List Char → Token → Prop where
  | name {s : String} (h : isName s = true) : Spells s.toList (.ident s)
  | number {n : Nat} (h : n ≤ 0x7fffffffffffffff) :
    Spells (Nat.toDigits 10 n) (.int (Int64.ofNat n))
  | string {quote : Char} (h : quote = '"' ∨ quote = '\'') (s : String) :
    Spells (quote :: (s.toList.flatMap (escaped quote) ++ [quote])) (.str s)
  | keyword {word : String} {kw : Keyword} (h : (word, kw) ∈ Keyword.spellings) :
    Spells word.toList (.keyword kw)
  | symbol {text : List Char} {s : Symbol} (h : (text, s) ∈ Symbol.spellings) :
    Spells text (.symbol s)

namespace Lexer

/-! ## Blanks -/

theorem ne_of_isBlank {c d : Char} (blank : isBlank c = true) (other : isBlank d = false) :
    c ≠ d := by
  rintro rfl
  rw [blank] at other
  cases other

theorem toNat_of_isDigit {c : Char} (digit : c.isDigit = true) :
    48 ≤ c.toNat ∧ c.toNat ≤ 57 := by
  obtain ⟨low, high⟩ := (Bool.and_eq_true _ _).mp digit
  exact ⟨UInt32.le_iff_toNat_le.1 (of_decide_eq_true low),
    UInt32.le_iff_toNat_le.1 (of_decide_eq_true high)⟩

theorem toNat_of_isAlpha {c : Char} (letter : c.isAlpha = true) :
    65 ≤ c.toNat ∧ c.toNat ≤ 90 ∨ 97 ≤ c.toNat ∧ c.toNat ≤ 122 := by
  rcases (Bool.or_eq_true _ _).mp letter with upper | lower
  · obtain ⟨low, high⟩ := of_decide_eq_true upper
    exact .inl ⟨UInt32.le_iff_toNat_le.1 low, UInt32.le_iff_toNat_le.1 high⟩
  · obtain ⟨low, high⟩ := (Bool.and_eq_true _ _).mp lower
    exact .inr ⟨UInt32.le_iff_toNat_le.1 (of_decide_eq_true low),
      UInt32.le_iff_toNat_le.1 (of_decide_eq_true high)⟩

theorem isNamePart_of_isBlank {c : Char} (blank : isBlank c = true) : isNamePart c = false := by
  rw [Bool.eq_false_iff]
  intro part
  unfold isNamePart at part
  rw [Bool.or_eq_true, Bool.or_eq_true, decide_eq_true_eq, decide_eq_true_eq] at part
  rcases part with (alphanumeric | rfl) | rfl
  · simp only [isBlank, Text.blankRanges, List.any_cons, List.any_nil, Bool.or_false,
      Bool.or_eq_true, Bool.and_eq_true, decide_eq_true_eq] at blank
    rcases (Bool.or_eq_true _ _).mp alphanumeric with letter | digit
    · have letter := toNat_of_isAlpha letter
      omega
    · have digit := toNat_of_isDigit digit
      omega
  · exact absurd blank (by decide)
  · exact absurd blank (by decide)

theorem isDigit_of_isBlank {c : Char} (blank : isBlank c = true) : c.isDigit = false := by
  have part := isNamePart_of_isBlank blank
  simp only [isNamePart, Char.isAlphanum, Bool.or_eq_false_iff] at part
  exact part.1.1.2

/-! ## Pieces with a blank behind them -/

variable {c : Char} {rest : List Char}

theorem takeWhile_append_blank {p : Char → Bool} {text : List Char} (all : ∀ d ∈ text, p d = true)
    (stop : p c = false) : (text ++ c :: rest).takeWhile p = text := by
  rw [List.takeWhile_append_of_pos all, List.takeWhile_cons_of_neg (by simp [stop]),
    List.append_nil]

theorem dropWhile_append_blank {p : Char → Bool} {text : List Char} (all : ∀ d ∈ text, p d = true)
    (stop : p c = false) : (text ++ c :: rest).dropWhile p = c :: rest := by
  rw [List.dropWhile_append_of_pos all, List.dropWhile_cons_of_neg (by simp [stop])]

/-- A `piece` that is no comment is told by its first character. -/
theorem piece_cons {d : Char} {more : List Char}
    (plain : d = '/' → ∀ e ∈ more.head?, e ≠ '/' ∧ e ≠ '*') : piece (d :: more) =
    if isBlank d then .gap [d] more
    else if d.isDigit then number (d :: more)
    else if d = '"' ∨ d = '\'' then string d more
    else if isNameStart d then word (d :: more)
    else symbol d (d :: more) := by
  unfold piece
  split
  · contradiction
  · next same =>
    cases same
    exact absurd rfl (plain rfl _ rfl).1
  · next same =>
    cases same
    exact absurd rfl (plain rfl _ rfl).2
  · next same =>
    cases same
    rfl

/-! ### Numbers -/

theorem digit?_digitChar {d : Nat} (h : d < 10) : Text.digit? (Nat.digitChar d) = some d := by
  have all : ∀ d : Fin 10, Text.digit? (Nat.digitChar d.val) = some d.val := by decide
  exact all ⟨d, h⟩

theorem readDigits_cons {limit value d : Nat} {overflow : Text.IntegerFault} {more : List Char}
    (digit : d < 10) (fits : value * 10 + d ≤ limit) :
    readDigits limit overflow value (Nat.digitChar d :: more) =
      readDigits limit overflow (value * 10 + d) more := by
  rw [readDigits, digit?_digitChar digit]
  exact if_pos fits

/-- `readDigits` reads the digits of a number back to it. -/
theorem readDigits_toDigits {limit : Nat} (overflow : Text.IntegerFault) (n : Nat)
    (h : n ≤ limit) (more : List Char) :
    readDigits limit overflow 0 (Nat.toDigits 10 n ++ more) =
      readDigits limit overflow n more := by
  induction n using Nat.strongRecOn generalizing more with
  | ind n ih =>
    by_cases small : n < 10
    · rw [Nat.toDigits_of_lt_base small, List.singleton_append, readDigits_cons small (by omega),
        Nat.zero_mul, Nat.zero_add]
    · rw [Nat.toDigits_of_base_le (by omega) (by omega), List.append_assoc, List.singleton_append,
        ih (n / 10) (by omega) (by omega),
        readDigits_cons (Nat.mod_lt n (by omega)) (by omega), Nat.div_add_mod']

theorem number_toDigits {n : Nat} (h : n ≤ 0x7fffffffffffffff) (blank : isBlank c = true)
    (rest : List Char) :
    number (Nat.toDigits 10 n ++ c :: rest) =
      .token (.int (Int64.ofNat n)) (Nat.toDigits 10 n) (c :: rest) := by
  have digits : ∀ d ∈ Nat.toDigits 10 n, d.isDigit = true := fun d mem =>
    Nat.isDigit_of_mem_toDigits (by omega) (by omega) mem
  have read : readDigits 0x7fffffffffffffff .tooLarge 0 (Nat.toDigits 10 n) = .ok n := by
    have back := readDigits_toDigits .tooLarge n h []
    rw [List.append_nil] at back
    exact back
  have part := isNamePart_of_isBlank blank
  simp only [isNamePart, Char.isAlphanum, Bool.or_eq_false_iff, decide_eq_false_iff_not] at part
  have other : ¬ (c = '.' ∨ c = 'e' ∨ c = 'E') := by
    rintro (rfl | rfl | rfl) <;> exact absurd blank (by decide)
  unfold number
  rw [takeWhile_append_blank digits (isDigit_of_isBlank blank),
    dropWhile_append_blank digits (isDigit_of_isBlank blank)]
  dsimp only
  rw [if_neg other, if_neg (by simp [part]), read]

/-! ### Strings -/

theorem stringBody_cons {quote d : Char} (plain : d ≠ '\\') (more : List Char) :
    stringBody quote (d :: more) =
      if d = quote then .closed [] [d] more
      else if d = '\n' then .unclosed
      else (stringBody quote more).cons d [d] := by
  rw [stringBody]
  · rintro rfl
    exact absurd rfl plain
  · rintro e more' rfl
    exact absurd rfl plain

theorem stringBody_escaped {quote d : Char} (h : quote = '"' ∨ quote = '\'')
    (more : List Char) : stringBody quote (escaped quote d ++ more) =
      (stringBody quote more).cons d (escaped quote d) := by
  unfold escaped
  split
  · next same =>
    subst same
    rfl
  · split
    · next same =>
      subst same
      rfl
    · split
      · next same =>
        subst same
        rcases h with rfl | rfl <;> rfl
      · next newline backslash quoted =>
        rw [List.singleton_append, stringBody_cons backslash, if_neg quoted, if_neg newline]

theorem stringBody_written {quote : Char} (h : quote = '"' ∨ quote = '\'') (s more : List Char) :
    stringBody quote (s.flatMap (escaped quote) ++ quote :: more) =
      .closed s (s.flatMap (escaped quote) ++ [quote]) more := by
  induction s with
  | nil =>
    have plain : quote ≠ '\\' := by rcases h with rfl | rfl <;> decide
    exact (stringBody_cons plain more).trans (if_pos rfl)
  | cons d s ih =>
    rw [List.flatMap_cons, List.append_assoc, stringBody_escaped h, ih]
    simp [StringBody.cons]

/-! ### Words -/

theorem isNamePart_of_isNameStart {d : Char} (start : isNameStart d = true) :
    isNamePart d = true := by
  unfold isNameStart at start
  unfold isNamePart Char.isAlphanum
  rw [Bool.or_eq_true, Bool.or_eq_true] at start
  rcases start with (letter | line) | dollar
  · rw [letter]
    rfl
  · rw [line]
    simp
  · rw [dollar]
    simp

theorem isDigit_of_isNameStart {d : Char} (start : isNameStart d = true) :
    d.isDigit = false := by
  rw [Bool.eq_false_iff]
  intro digit
  unfold isNameStart at start
  rw [Bool.or_eq_true, Bool.or_eq_true, decide_eq_true_eq, decide_eq_true_eq] at start
  rcases start with (letter | rfl) | rfl
  · have alpha := toNat_of_isAlpha letter
    have numeric := toNat_of_isDigit digit
    omega
  · exact absurd digit (by decide)
  · exact absurd digit (by decide)

theorem ne_of_isNameStart {d e : Char} (start : isNameStart d = true)
    (other : isNameStart e = false) : d ≠ e := by
  rintro rfl
  rw [start] at other
  cases other

theorem isBlank_of_isNamePart {d : Char} (part : isNamePart d = true) : isBlank d = false := by
  rw [Bool.eq_false_iff]
  intro blank
  rw [isNamePart_of_isBlank blank] at part
  cases part

theorem piece_of_isNameStart {d : Char} {more : List Char} (start : isNameStart d = true) :
    piece (d :: more) = word (d :: more) := by
  have quotes : ¬ (d = '"' ∨ d = '\'') := not_or.2
    ⟨ne_of_isNameStart start (by decide), ne_of_isNameStart start (by decide)⟩
  refine (piece_cons fun same => absurd same (ne_of_isNameStart start (by decide))).trans ?_
  rw [if_neg (by rw [isBlank_of_isNamePart (isNamePart_of_isNameStart start)]; decide),
    if_neg (by rw [isDigit_of_isNameStart start]; decide), if_neg quotes, if_pos start]

/-- `piece` ends a word at a blank. -/
theorem piece_word {d : Char} {more : List Char} (start : isNameStart d = true)
    (parts : ∀ e ∈ more, isNamePart e = true) (blank : isBlank c = true) :
    piece (d :: more ++ c :: rest) =
      .token (wordToken (String.ofList (d :: more))) (d :: more) (c :: rest) := by
  have part := isNamePart_of_isNameStart start
  have all : ∀ e ∈ d :: more, isNamePart e = true := List.forall_mem_cons.2 ⟨part, parts⟩
  rw [List.cons_append, piece_of_isNameStart start, ← List.cons_append]
  unfold word
  rw [takeWhile_append_blank all (isNamePart_of_isBlank blank),
    dropWhile_append_blank all (isNamePart_of_isBlank blank)]

theorem piece_name {s : String} (h : isName s = true) (blank : isBlank c = true) :
    piece (s.toList ++ c :: rest) = .token (.ident s) s.toList (c :: rest) := by
  unfold isName at h
  split at h
  · cases h
  · next d more whole =>
    rw [Bool.and_eq_true, Bool.and_eq_true, List.all_eq_true, Option.isNone_iff_eq_none] at h
    obtain ⟨⟨start, parts⟩, free⟩ := h
    have name : wordToken (String.ofList s.toList) = .ident s := by
      unfold wordToken
      rw [String.ofList_toList, free]
    rw [← name, whole]
    exact piece_word start parts blank

theorem piece_keyword {word : String} {kw : Keyword} (h : (word, kw) ∈ Keyword.spellings)
    (blank : isBlank c = true) :
    piece (word.toList ++ c :: rest) = .token (.keyword kw) word.toList (c :: rest) := by
  have spelled : ∀ p ∈ Keyword.spellings, Keyword.ofWord? p.1 = some p.2 ∧
      p.1.toList.all isNameStart = true ∧ p.1.toList ≠ [] := by decide
  obtain ⟨reserved, letters, nonempty⟩ := spelled _ h
  have token : wordToken (String.ofList word.toList) = .keyword kw := by
    unfold wordToken
    rw [String.ofList_toList, reserved]
  obtain ⟨d, more, whole⟩ := List.exists_cons_of_ne_nil nonempty
  rw [List.all_eq_true, whole, List.forall_mem_cons] at letters
  rw [← token, whole]
  exact piece_word letters.1 (fun e mem => isNamePart_of_isNameStart (letters.2 e mem)) blank

/-! ### Symbols -/

/-- A spelling without blanks starts no more than the text before a blank. -/
theorem isPrefixOf_append_blank {spelling text : List Char}
    (dense : ∀ d ∈ spelling, isBlank d = false) (blank : isBlank c = true) :
    spelling.isPrefixOf (text ++ c :: rest) = spelling.isPrefixOf text := by
  induction spelling generalizing text with
  | nil => rfl
  | cons d spelling ih =>
    obtain ⟨solid, dense⟩ := List.forall_mem_cons.1 dense
    cases text with
    | nil =>
      have apart : (d == c) = false := beq_false_of_ne (ne_of_isBlank blank solid).symm
      rw [List.nil_append, List.isPrefixOf_cons_cons, apart]
      rfl
    | cons e text =>
      rw [List.cons_append, List.isPrefixOf_cons_cons, List.isPrefixOf_cons_cons, ih dense]

theorem read?_of_mem {text : List Char} {s : Symbol} (h : (text, s) ∈ Symbol.spellings) :
    Symbol.read? text = some (text, s) := by
  have longest : (Symbol.spellings.all fun p =>
      Symbol.spellings.find? (fun q => q.1.isPrefixOf p.1) = some p) = true := by decide +kernel
  simp only [List.all_eq_true, decide_eq_true_eq] at longest
  exact longest _ h

theorem read?_append_blank {text : List Char} {s : Symbol} (h : (text, s) ∈ Symbol.spellings)
    (blank : isBlank c = true) (rest : List Char) :
    Symbol.read? (text ++ c :: rest) = some (text, s) := by
  have dense : (Symbol.spellings.all fun p => p.1.all fun d => !isBlank d) = true := by
    decide +kernel
  simp only [List.all_eq_true, Bool.not_eq_true'] at dense
  rw [← read?_of_mem h]
  unfold Symbol.read?
  rw [← List.head?_filter, ← List.head?_filter]
  exact congrArg List.head? (List.filter_congr fun q mem =>
    isPrefixOf_append_blank (dense q mem) blank)

theorem piece_symbol {text : List Char} {s : Symbol} (h : (text, s) ∈ Symbol.spellings)
    (blank : isBlank c = true) :
    piece (text ++ c :: rest) = .token (.symbol s) text (c :: rest) := by
  have heads : (Symbol.spellings.all fun p =>
      !isBlank (p.1.headD ' ') && !(p.1.headD ' ').isDigit && !isNameStart (p.1.headD ' ') &&
        (p.1.headD ' ' ≠ '"' && p.1.headD ' ' ≠ '\'') &&
        (p.1.headD ' ' ≠ '/' || p.1 = ['/'])) = true := by decide +kernel
  have read := read?_append_blank h blank rest
  simp only [List.all_eq_true, Bool.and_eq_true, Bool.or_eq_true, Bool.not_eq_true',
    decide_eq_true_eq] at heads
  obtain ⟨⟨⟨⟨solid, digit⟩, start⟩, quotes⟩, slash⟩ := heads _ h
  cases text with
  | nil => cases solid
  | cons d more =>
  dsimp only [List.headD] at solid digit start quotes slash
  have plain : d = '/' → ∀ e ∈ (more ++ c :: rest).head?, e ≠ '/' ∧ e ≠ '*' := by
    intro same e mem
    cases slash.resolve_left (not_not_intro same)
    cases mem
    exact ⟨ne_of_isBlank blank (by decide), ne_of_isBlank blank (by decide)⟩
  refine (piece_cons plain).trans ?_
  rw [if_neg (by rw [solid]; decide), if_neg (by rw [digit]; decide), if_neg (not_or.2 quotes),
    if_neg (by rw [start]; decide)]
  unfold symbol
  rw [← List.cons_append, read]
  dsimp only
  rw [List.drop_left]

/-! ### Numbers and strings -/

theorem piece_of_isDigit {d : Char} {more : List Char} (digit : d.isDigit = true) :
    piece (d :: more) = number (d :: more) := by
  have part : isNamePart d = true := by
    unfold isNamePart Char.isAlphanum
    rw [digit]
    simp
  have plain : d ≠ '/' := by
    rintro rfl
    cases digit
  refine (piece_cons fun same => absurd same plain).trans ?_
  rw [if_neg (by rw [isBlank_of_isNamePart part]; decide), if_pos digit]

theorem piece_number {n : Nat} (h : n ≤ 0x7fffffffffffffff) (blank : isBlank c = true) :
    piece (Nat.toDigits 10 n ++ c :: rest) =
      .token (.int (Int64.ofNat n)) (Nat.toDigits 10 n) (c :: rest) := by
  have cut := number_toDigits h blank rest
  have digits : ∀ d ∈ Nat.toDigits 10 n, d.isDigit = true := fun d mem =>
    Nat.isDigit_of_mem_toDigits (by omega) (by omega) mem
  obtain ⟨d, more, whole⟩ := List.exists_cons_of_ne_nil (Nat.toDigits_ne_nil (n := n) (b := 10))
  rw [whole] at cut digits ⊢
  exact (piece_of_isDigit (digits d (List.mem_cons_self ..))).trans cut

theorem piece_of_quote {quote : Char} (h : quote = '"' ∨ quote = '\'') (more : List Char) :
    piece (quote :: more) = string quote more := by
  rcases h with rfl | rfl <;> exact piece_cons fun same => absurd same (by decide)

theorem piece_string {quote : Char} (h : quote = '"' ∨ quote = '\'') (s : String) :
    piece (quote :: (s.toList.flatMap (escaped quote) ++ [quote]) ++ c :: rest) =
      .token (.str s) (quote :: (s.toList.flatMap (escaped quote) ++ [quote])) (c :: rest) := by
  rw [List.cons_append, List.append_assoc, List.singleton_append, piece_of_quote h]
  unfold string
  rw [stringBody_written h]
  dsimp only
  rw [String.ofList_toList]

/-- **Tokens end at blanks.**  A text that `Spells` a token, with a blank behind it, is
cut off by `piece` as the token that it spells. -/
theorem piece_of_spells {text : List Char} {t : Token} (h : Spells text t)
    (blank : isBlank c = true) (rest : List Char) :
    piece (text ++ c :: rest) = .token t text (c :: rest) := by
  cases h with
  | name h => exact piece_name h blank
  | number h => exact piece_number h blank
  | string h s => exact piece_string h s
  | keyword h => exact piece_keyword h blank
  | symbol h => exact piece_symbol h blank

end Lexer

/-! ## Layout -/

/-- The first spelling of a reserved word. -/
def Keyword.word (kw : Keyword) : String :=
  ((spellings.find? fun p => p.2 = kw).map Prod.fst).getD ""

/-- The first spelling of a symbol. -/
def Symbol.text (s : Symbol) : List Char :=
  ((spellings.find? fun p => p.2 = s).map Prod.fst).getD []

/-- A spelling of a token; strings stand between double quotes. -/
def Token.text : Token → List Char
  | ident name => name.toList
  | int n => Nat.toDigits 10 n.toNatClampNeg
  | str s => '"' :: (s.toList.flatMap (escaped '"') ++ ['"'])
  | keyword kw => kw.word.toList
  | symbol s => s.text

/-- `t.legal`: `t` has a spelling. -/
def Token.legal : Token → Bool
  | ident name => isName name
  | int n => decide (0 ≤ n)
  | _ => true

/-- The spellings of tokens with a space behind each. -/
def layout (tokens : List Token) : List Char :=
  tokens.flatMap fun t => t.text ++ [' ']

theorem Token.spells_text {t : Token} (h : t.legal = true) : Spells t.text t := by
  cases t with
  | ident name => exact .name h
  | int n =>
    have positive : 0 ≤ n := of_decide_eq_true h
    have small : n.toNatClampNeg ≤ 0x7fffffffffffffff := by
      have upper := n.toInt_lt
      unfold Int64.toNatClampNeg
      omega
    have spelled := Spells.number small
    rw [Int64.ofNat_toNatClampNeg n positive] at spelled
    exact spelled
  | str s => exact .string (.inl rfl) s
  | keyword kw => exact .keyword (by cases kw <;> decide)
  | symbol s => exact .symbol (by cases s <;> decide)

namespace Lexer

variable {source text rest : List Char} {t : Token} {position : Position} {tokens : Tokens}

theorem tokensFrom_of_token (cut : piece source = .token t text rest)
    (h : tokensFrom rest (position.across text) = .ok tokens) :
    tokensFrom source position = .ok { tokens with placed := ⟨t, position⟩ :: tokens.placed } := by
  rw [tokensFrom]
  split <;> simp_all

theorem tokensFrom_of_gap (cut : piece source = .gap text rest) :
    tokensFrom source position = tokensFrom rest (position.across text) := by
  rw [tokensFrom]
  split <;> simp_all

end Lexer

end LedgerScript.Script
