import Mathlib.Data.List.TakeWhile
import LedgerScript.Proofs.Script.Spelling

/-!
# Gaps and lexemes

A source is cut into gaps, which are blanks and comments (`Gap`), and texts of tokens
(`Lexeme`).  A gap is cut off whatever follows it (`piece_of_gap`), and whatever is cut
off is a gap or a lexeme (`piece_of`); so a spelling with nothing behind it is its token
(`piece_of_spells_alone`).
-/

namespace LedgerScript.Script

open Text (isBlank readDigits)

/-- A blank or a comment with its end. -/
inductive Gap : List Char → Prop where
  | blank {c : Char} (h : isBlank c = true) : Gap [c]
  | line {text : List Char} (h : '\n' ∉ text) : Gap ('/' :: '/' :: (text ++ ['\n']))
  | block {text : List Char} (h : ¬ ['*', '/'] <:+: text) :
    Gap ('/' :: '*' :: (text ++ ['*', '/']))

/-- A comment that the end of the source ends. -/
def OpenComment (text : List Char) : Prop :=
  ∃ line, '\n' ∉ line ∧ text = '/' :: '/' :: line

/-- A text that is a token when it stands alone. -/
structure Lexeme (text : List Char) (t : Token) : Prop where
  alone : Lexer.piece text = .token t text []
  legal : t.legal = true

theorem Lexeme.ne_nil {text : List Char} {t : Token} (h : Lexeme text t) : text ≠ [] := by
  rintro rfl
  have cut := h.alone
  rw [Lexer.piece] at cut
  cases cut

namespace Lexer

variable {text rest source : List Char} {c : Char} {t : Token}

/-! ## Comments -/

theorem cutLine_line (h : '\n' ∉ text) (rest : List Char) :
    cutLine (text ++ '\n' :: rest) = (text ++ ['\n'], rest) := by
  induction text with
  | nil => rfl
  | cons c text ih =>
    obtain ⟨other, h⟩ := not_or.1 (mt List.mem_cons.2 h)
    rw [List.cons_append, cutLine, ih h]
    · rfl
    · exact fun same => other same.symm

/-- A line ends with its newline, or with the source. -/
theorem cutLine_cases (source : List Char) :
    (∃ line, '\n' ∉ line ∧ (cutLine source).1 = line ++ ['\n']) ∨
      '\n' ∉ source ∧ cutLine source = (source, []) := by
  fun_induction cutLine source with
  | case1 => exact .inr ⟨List.not_mem_nil, rfl⟩
  | case2 rest => exact .inl ⟨[], List.not_mem_nil, rfl⟩
  | case3 c rest other ih =>
    have apart : '\n' ≠ c := fun same => other same.symm
    rcases ih with ⟨line, free, cut⟩ | ⟨free, cut⟩
    · exact .inl ⟨c :: line, by simp [apart, free], by rw [cut]; rfl⟩
    · exact .inr ⟨by simp [apart, free], by rw [cut]⟩

theorem cutComment?_block (h : ¬ ['*', '/'] <:+: text) (rest : List Char) :
    cutComment? (text ++ '*' :: '/' :: rest) = some (text ++ ['*', '/'], rest) := by
  induction text with
  | nil => rfl
  | cons c text ih =>
    obtain ⟨front, inside⟩ := not_or.1 (mt List.infix_cons_iff.2 h)
    rw [List.cons_append, cutComment?, ih inside]
    · rfl
    · rintro more rfl whole
      cases text with
      | nil => cases whole
      | cons d text =>
        cases whole
        exact front ⟨text, rfl⟩

/-- `cutComment?` ends a block comment where it first can. -/
theorem cutComment?_eq_some (h : cutComment? source = some (text, rest)) :
    ∃ inside, ¬ ['*', '/'] <:+: inside ∧ text = inside ++ ['*', '/'] := by
  fun_induction cutComment? source generalizing text with
  | case1 => cases h
  | case2 more =>
    cases h
    exact ⟨[], by simp, rfl⟩
  | case3 c more other ih =>
    obtain ⟨⟨text', rest'⟩, cut, same⟩ := Option.map_eq_some_iff.1 h
    cases same
    obtain ⟨inside, free, rfl⟩ := ih cut
    refine ⟨c :: inside, fun within => ?_, rfl⟩
    rcases List.infix_cons_iff.1 within with ⟨tail, front⟩ | within
    · -- the end would have been found one character earlier
      cases front
      exact other _ rfl (cutComment?_append cut).symm
    · exact free within

/-- **Gaps are cut off** by `piece`, whatever follows. -/
theorem piece_of_gap (h : Gap text) (rest : List Char) :
    piece (text ++ rest) = .gap text rest := by
  cases h with
  | blank h =>
    refine (piece_cons fun same => ?_).trans (if_pos h)
    exact absurd same (ne_of_isBlank h (by decide))
  | line h =>
    rw [List.cons_append, List.cons_append, List.append_assoc, List.singleton_append, piece,
      cutLine_line h]
  | block h =>
    have cut := cutComment?_block h rest
    simp only [List.cons_append, List.append_assoc, List.nil_append, piece, cut]

/-! ## Lexemes -/

theorem lexeme_digits {d : Char} {more : List Char} (digits : ∀ e ∈ d :: more, e.isDigit = true)
    {n : Nat} (read : readDigits 0x7fffffffffffffff .tooLarge 0 (d :: more) = .ok n) :
    Lexeme (d :: more) (.int (Int64.ofNat n)) := by
  have small : n ≤ 0x7fffffffffffffff := Text.readDigits_le (by omega) read
  refine ⟨?_, decide_eq_true ?_⟩
  · have taken := List.takeWhile_eq_self_iff.2 digits
    have left := List.dropWhile_eq_nil_iff.2 digits
    rw [piece_of_isDigit (digits d List.mem_cons_self), number]
    simp only [taken, left, read]
  · rw [Int64.le_iff_toInt_le, Int64.toInt_ofNat_of_lt (by omega)]
    simp

theorem lexeme_word {d : Char} {more : List Char} (start : isNameStart d = true)
    (parts : ∀ e ∈ d :: more, isNamePart e = true) :
    Lexeme (d :: more) (wordToken (String.ofList (d :: more))) := by
  constructor
  · rw [piece_of_isNameStart start, word, List.takeWhile_eq_self_iff.2 parts,
      List.dropWhile_eq_nil_iff.2 parts]
  · unfold wordToken
    split
    · rfl
    · next free =>
      have further : more.all isNamePart = true :=
        List.all_eq_true.2 (List.forall_mem_cons.1 parts).2
      unfold Token.legal isName
      dsimp only
      rw [String.toList_ofList]
      simp only [start, further, free, Option.isNone_none, Bool.and_self]

theorem lexeme_spelling : ∀ p ∈ Symbol.spellings, Lexeme p.1 (.symbol p.2) := by
  have alone : ∀ p ∈ Symbol.spellings, piece p.1 = .token (.symbol p.2) p.1 [] := by
    simp only [Symbol.spellings, List.forall_mem_cons]
    and_intros
    rotate_right
    · exact fun p none => nomatch none
    all_goals rfl
  exact fun p listed => ⟨alone p listed, rfl⟩

/-! ## What is cut off -/

/-- A piece is a part of its source, a `Gap` or a `Lexeme`. -/
def Piece.Of (source : List Char) : Piece → Prop
  | finish => source = []
  | gap text rest => text ++ rest = source ∧ (Gap text ∨ rest = [] ∧ OpenComment text)
  | token t text rest => text ++ rest = source ∧ Lexeme text t
  | fault _ before => before <+: source

theorem number_of {d : Char} {more : List Char} (digit : d.isDigit = true) :
    (number (d :: more)).Of (d :: more) := by
  cases read : readDigits 0x7fffffffffffffff .tooLarge 0 ((d :: more).takeWhile Char.isDigit) with
  | error e =>
    unfold number
    simp only [read]
    split <;> (try split) <;> (try split) <;> exact List.nil_prefix
  | ok n =>
    have cut : Piece.Of (d :: more) (.token (.int (Int64.ofNat n))
        ((d :: more).takeWhile Char.isDigit) ((d :: more).dropWhile Char.isDigit)) := by
      have digits : ∀ e ∈ (d :: more).takeWhile Char.isDigit, e.isDigit = true :=
        fun e mem => List.mem_takeWhile_imp mem
      refine ⟨List.takeWhile_append_dropWhile, ?_⟩
      rw [List.takeWhile_cons_of_pos digit] at read digits ⊢
      exact lexeme_digits digits read
    unfold number
    simp only [read]
    split
    · exact cut
    · split
      · exact List.nil_prefix
      · split
        · exact List.nil_prefix
        · exact cut

theorem word_of {d : Char} {more : List Char} (start : isNameStart d = true) :
    (word (d :: more)).Of (d :: more) := by
  have parts : ∀ e ∈ (d :: more).takeWhile isNamePart, isNamePart e = true :=
    fun e mem => List.mem_takeWhile_imp mem
  refine ⟨List.takeWhile_append_dropWhile, ?_⟩
  rw [List.takeWhile_cons_of_pos (isNamePart_of_isNameStart start)] at parts ⊢
  exact lexeme_word start parts

/-- The same for what follows an opening quote. -/
def StringBody.Of (quote : Char) (source : List Char) : StringBody → Prop
  | closed value text rest =>
    text ++ rest = source ∧ stringBody quote text = .closed value text []
  | unclosed => True
  | badEscape before _ => before <+: source

theorem StringBody.Of.cons {quote value : Char} {body : StringBody}
    (h : body.Of quote source) (taken : List Char)
    (step : ∀ more, stringBody quote (taken ++ more) =
      (stringBody quote more).cons value taken) :
    (body.cons value taken).Of quote (taken ++ source) := by
  cases body with
  | closed v text rest =>
    obtain ⟨whole, alone⟩ := h
    exact ⟨by rw [List.append_assoc, whole], by rw [step, alone]; rfl⟩
  | unclosed => trivial
  | badEscape before e => exact (List.prefix_append_right_inj taken).2 h

theorem ne_backslash {more : List Char} (last : c = '\\' → more = [] → False)
    (inner : ∀ d further, c = '\\' → more = d :: further → False) : c ≠ '\\' := by
  intro same
  cases more with
  | nil => exact last same rfl
  | cons d further => exact inner d further same rfl

theorem stringBody_of (quote : Char) (source : List Char) :
    (stringBody quote source).Of quote source := by
  fun_induction stringBody quote source with
  | case1 => trivial
  | case2 => trivial
  | case3 c more value found ih =>
    refine ih.cons ['\\', c] fun more => ?_
    simp only [List.cons_append, List.nil_append, stringBody, found]
  | case4 c more found => exact ⟨c :: more, rfl⟩
  | case5 more last inner =>
    have solid := ne_backslash last inner
    exact ⟨rfl, (stringBody_cons solid []).trans (if_pos rfl)⟩
  | case6 => trivial
  | case7 c more last inner other inline ih =>
    refine ih.cons [c] fun more => ?_
    have solid := ne_backslash last inner
    exact (stringBody_cons solid more).trans ((if_neg other).trans (if_neg inline))

theorem string_of {quote : Char} (h : quote = '"' ∨ quote = '\'') (source : List Char) :
    (string quote source).Of (quote :: source) := by
  have inside := stringBody_of quote source
  unfold string
  split
  · next value text rest read =>
    rw [read] at inside
    obtain ⟨whole, alone⟩ := inside
    exact ⟨congrArg (quote :: ·) whole, by rw [piece_of_quote h, string, alone], rfl⟩
  · exact List.nil_prefix
  · next before e read =>
    rw [read] at inside
    exact (List.prefix_append_right_inj [quote]).2 inside

theorem symbol_of (c : Char) (source : List Char) : (symbol c source).Of source := by
  unfold symbol
  split
  · next spelling s read =>
    obtain ⟨listed, front⟩ := Symbol.read?_eq_some read
    obtain ⟨left, rfl⟩ := List.isPrefixOf_iff_prefix.1 front
    exact ⟨by rw [List.drop_left], lexeme_spelling _ listed⟩
  · exact List.nil_prefix

/-- **Pieces are gaps and lexemes.**  What `piece` cuts off is a part of its source, and a
`Gap` or a `Lexeme`. -/
theorem piece_of (source : List Char) : (piece source).Of source := by
  unfold piece
  split
  · rfl
  · next rest =>
    refine ⟨congrArg ('/' :: '/' :: ·) (cutLine_append rest), ?_⟩
    rcases cutLine_cases rest with ⟨line, free, cut⟩ | ⟨free, cut⟩
    · exact .inl (cut ▸ .line free)
    · rw [cut]
      exact .inr ⟨rfl, rest, free, rfl⟩
  · next rest =>
    split
    · next text more cut =>
      obtain ⟨inside, free, rfl⟩ := cutComment?_eq_some cut
      exact ⟨congrArg ('/' :: '*' :: ·) (cutComment?_append cut), .inl (.block free)⟩
    · exact List.nil_prefix
  · next c rest _ _ =>
    split
    · next blank => exact ⟨rfl, .inl (.blank blank)⟩
    · split
      · next digit => exact number_of digit
      · split
        · next quoted => exact string_of quoted rest
        · split
          · next start => exact word_of start
          · exact symbol_of c (c :: rest)

theorem Piece.of_eq {part : Piece} (h : piece source = part) : part.Of source :=
  h ▸ piece_of source

/-- `piece` cuts a spelling off before a blank, so what it cuts off is its lexeme. -/
theorem piece_of_spells_alone (h : Spells text t) : piece text = .token t text [] :=
  (Piece.of_eq (piece_of_spells h (c := ' ') (by decide) [])).2.alone

end Lexer

end LedgerScript.Script
