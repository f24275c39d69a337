import LedgerScript.Proofs.Script.Places

/-!
# Words kept apart

Names, reserved words and integers are words.  A word goes on as far as it can, and a
number is refused in front of what could go on with it, the dollar sign excepted
(`Lexer.words_cut`).  So a gap stands between any two words that are next to each other,
unless the first is an integer and the second a name that begins with a dollar sign
(`words_apart`).
-/

namespace LedgerScript.Script

namespace Token

def IsInt : Token → Prop
  | int _ => True
  | _ => False

/-- A name, a reserved word or an integer. -/
def IsWord : Token → Prop
  | ident _ => True
  | int _ => True
  | keyword _ => True
  | str _ => False
  | symbol _ => False

/-- A name that begins with a dollar sign. -/
def IsDollarName : Token → Prop
  | ident name => name.toList.head? = some '$'
  | _ => False

end Token

/-- The lexemes of two tokens of `source`, which stands behind `before`, at their places,
with `gaps` and nothing else between them. -/
def Neighbours (before source : List Char) (gaps : List (List Char)) (p q : Placed) : Prop :=
  ∃ front first second rest,
    source = front ++ (first ++ (gaps.flatten ++ (second ++ rest))) ∧
    Lexeme first p.token ∧ (∀ gap ∈ gaps, Gap gap) ∧ Lexeme second q.token ∧
    p.position = .behind (before ++ front) ∧
    q.position = .behind (before ++ (front ++ (first ++ gaps.flatten)))

theorem Neighbours.append {before text rest : List Char} {gaps : List (List Char)}
    {p q : Placed} (h : Neighbours (before ++ text) rest gaps p q) :
    Neighbours before (text ++ rest) gaps p q := by
  obtain ⟨front, first, second, further, whole, lexeme, between, next, place, place'⟩ := h
  refine ⟨text ++ front, first, second, further, ?_, lexeme, between, next, ?_, ?_⟩
  · rw [whole, List.append_assoc]
  · rw [place, List.append_assoc]
  · rw [place', List.append_assoc, List.append_assoc]

namespace Lexer

variable {source text rest : List Char} {t : Token}

/-! ## Where words end -/

theorem head_dropWhile {p : Char → Bool} {c : Char}
    (ahead : ((source.dropWhile p).head? = some c)) : p c = false := by
  have stop := List.head?_dropWhile_not p source
  rw [ahead] at stop
  exact stop

/-- `number` gives an integer, and of all that could go on with it only `$` may follow. -/
theorem number_eq_token (cut : number source = .token t text rest) :
    t.IsInt ∧ ∀ c ∈ rest.head?, isNamePart c = true → c = '$' := by
  unfold number at cut
  dsimp only at cut
  cases read : Text.readDigits 0x7fffffffffffffff .tooLarge 0 (source.takeWhile Char.isDigit) with
  | error fault =>
    rw [read] at cut
    dsimp only at cut
    split at cut
    · cases cut
    · split at cut
      · cases cut
      · split at cut <;> cases cut
  | ok n =>
    rw [read] at cut
    dsimp only at cut
    split at cut
    · next last =>
      cases cut
      exact ⟨trivial, fun c ahead => by rw [last] at ahead; cases ahead⟩
    · next d more ahead =>
      split at cut
      · cases cut
      · split at cut
        · cases cut
        · next apart =>
          cases cut
          refine ⟨trivial, fun c first part => ?_⟩
          rw [Option.mem_def] at first
          have digit := head_dropWhile first
          rw [ahead] at first
          cases first
          obtain ⟨letter, line⟩ := not_or.1 apart
          simpa [isNamePart, Char.isAlphanum, letter, line, digit] using part

theorem word_eq_token (cut : word source = .token t text rest) :
    ∀ c ∈ rest.head?, isNamePart c = false := by
  cases cut
  exact fun c ahead => head_dropWhile ahead

/-- `piece` cuts a word off as a number or as a name. -/
theorem piece_eq_word {c : Char} {more : List Char} (cut : piece (c :: more) = .token t text rest)
    (isWord : t.IsWord) :
    c.isDigit = true ∧ number (c :: more) = .token t text rest ∨
      isNameStart c = true ∧ word (c :: more) = .token t text rest := by
  generalize whole : c :: more = source at cut ⊢
  unfold piece at cut
  split at cut
  · cases cut
  · cases cut
  · split at cut <;> cases cut
  · next d ahead _ _ =>
    cases whole
    split at cut
    · cases cut
    · split at cut
      · next digit => exact .inl ⟨digit, cut⟩
      · split at cut
        · unfold string at cut
          split at cut <;> cases cut
          cases isWord
        · split at cut
          · next start => exact .inr ⟨start, cut⟩
          · unfold symbol at cut
            split at cut <;> cases cut
            cases isWord

/-- What can go on with a word that `piece` cuts off does so, but for `$` behind an
integer. -/
theorem ends_word (cut : piece source = .token t text rest) (isWord : t.IsWord) :
    ∀ c ∈ rest.head?, isNamePart c = true → t.IsInt ∧ c = '$' := by
  cases source with
  | nil =>
    rw [piece] at cut
    cases cut
  | cons d more =>
    intro c ahead part
    rcases piece_eq_word cut isWord with ⟨-, cut⟩ | ⟨-, cut⟩
    · obtain ⟨int, only⟩ := number_eq_token cut
      exact ⟨int, only c ahead part⟩
    · rw [word_eq_token cut c ahead] at part
      cases part

/-! ## How words begin -/

theorem wordToken_dollar (more : List Char) :
    (wordToken (String.ofList ('$' :: more))).IsDollarName := by
  have none : ∀ p ∈ Keyword.spellings, p.1.toList.head? ≠ some '$' := by decide
  unfold wordToken Keyword.ofWord?
  split
  · next kw found =>
    obtain ⟨front, back, listed, -⟩ := List.lookup_eq_some_iff.1 found
    have mem : (String.ofList ('$' :: more), kw) ∈ Keyword.spellings := by
      rw [listed]
      simp
    exact absurd (by rw [String.toList_ofList]; rfl) (none _ mem)
  · unfold Token.IsDollarName
    dsimp only
    rw [String.toList_ofList]
    rfl

theorem begins_word (cut : piece source = .token t text rest) (isWord : t.IsWord) :
    ∃ c ∈ source.head?, isNamePart c = true ∧ (c = '$' → t.IsDollarName) := by
  cases source with
  | nil =>
    rw [piece] at cut
    cases cut
  | cons c more =>
    refine ⟨c, rfl, ?_⟩
    rcases piece_eq_word cut isWord with ⟨digit, -⟩ | ⟨start, cut⟩
    · refine ⟨by simp [isNamePart, Char.isAlphanum, digit], ?_⟩
      rintro rfl
      cases digit
    · refine ⟨isNamePart_of_isNameStart start, ?_⟩
      rintro rfl
      cases cut
      rw [List.takeWhile_cons_of_pos (by decide)]
      exact wordToken_dollar _

/-- Of two words that `piece` cuts off one right behind the other, the first is an integer
and the second an `IsDollarName`. -/
theorem words_cut {t' : Token} {text' rest' : List Char} (cut : piece source = .token t text rest)
    (cut' : piece rest = .token t' text' rest') (isWord : t.IsWord) (isWord' : t'.IsWord) :
    t.IsInt ∧ t'.IsDollarName := by
  obtain ⟨c, ahead, part, dollar⟩ := begins_word cut' isWord'
  obtain ⟨int, same⟩ := ends_word cut isWord c ahead part
  exact ⟨int, dollar same⟩

/-! ## Tokens next to each other -/

/-- Gaps and then the `piece` of the first token stand at the head of a source. -/
theorem first_of_tokensFrom (before source : List Char) {tokens : Tokens}
    (read : tokensFrom source (.behind before) = .ok tokens) :
    ∀ q ∈ tokens.placed.head?, ∃ gaps text rest,
      source = List.flatten gaps ++ (text ++ rest) ∧ (∀ gap ∈ gaps, Gap gap) ∧
      q.position = .behind (before ++ List.flatten gaps) ∧
      piece (text ++ rest) = .token q.token text rest := by
  generalize start : Position.behind before = position at read
  fun_induction tokensFrom source position generalizing before tokens with
  | case1 source position cut =>
    cases read
    simp
  | case2 source position text rest cut _ ih =>
    intro q ahead
    obtain ⟨rfl, gap | ⟨rfl, -⟩⟩ := Piece.of_eq cut
    · obtain ⟨gaps, first, further, rfl, all, place, next⟩ :=
        ih (before ++ text) (by rw [← start, Position.across_behind]) read q ahead
      refine ⟨text :: gaps, first, further, ?_, List.forall_mem_cons.2 ⟨gap, all⟩, ?_, next⟩
      · rw [List.flatten_cons, List.append_assoc]
      · rw [place, List.flatten_cons, List.append_assoc]
    · rw [tokensFrom_nil] at read
      cases read
      cases ahead
  | case3 source position t text rest cut _ tokens' read' ih =>
    cases read
    intro q ahead
    cases ahead
    obtain ⟨rfl, -⟩ := Piece.of_eq cut
    exact ⟨[], text, rest, rfl, List.forall_mem_nil _, by rw [← start]; simp, cut⟩
  | case4 => cases read
  | case5 => cases read

/-- A token and the next one are `Neighbours`, with no gap between them only if they are
cut off one right behind the other. -/
theorem neighbours_of_tokensFrom (before source : List Char) {tokens : Tokens}
    (read : tokensFrom source (.behind before) = .ok tokens) {p q : Placed}
    (next : [p, q] <:+: tokens.placed) :
    ∃ gaps, Neighbours before source gaps p q ∧
      (gaps = [] → p.token.IsWord → q.token.IsWord →
        p.token.IsInt ∧ q.token.IsDollarName) := by
  generalize start : Position.behind before = position at read
  fun_induction tokensFrom source position generalizing before tokens with
  | case1 source position cut =>
    cases read
    simp at next
  | case2 source position text rest cut _ ih =>
    obtain ⟨rfl, -⟩ := Piece.of_eq cut
    obtain ⟨gaps, near, apart⟩ :=
      ih (before ++ text) next (by rw [← start, Position.across_behind]) read
    exact ⟨gaps, near.append, apart⟩
  | case3 source position t text rest cut _ tokens' read' ih =>
    cases read
    obtain ⟨rfl, lexeme⟩ := Piece.of_eq cut
    have across : Position.behind (before ++ text) = position.across text := by
      rw [← start, Position.across_behind]
    rcases List.infix_cons_iff.1 next with ⟨more, head⟩ | inside
    · obtain ⟨rfl, behind⟩ := List.cons.inj head
      obtain ⟨gaps, second, further, rfl, all, place, cut'⟩ :=
        first_of_tokensFrom (before ++ text) rest (across ▸ read') q (by rw [← behind]; rfl)
      have near : Neighbours before (text ++ (gaps.flatten ++ (second ++ further))) gaps
          ⟨t, position⟩ q :=
        ⟨[], text, second, further, rfl, lexeme, all, (Piece.of_eq cut').2, by simp [start],
          by rw [place, List.nil_append, List.append_assoc]⟩
      refine ⟨gaps, near, ?_⟩
      rintro rfl isWord isWord'
      exact words_cut cut cut' isWord isWord'
    · obtain ⟨gaps, near, apart⟩ := ih (before ++ text) inside across read'
      exact ⟨gaps, near.append, apart⟩
  | case4 => cases read
  | case5 => cases read

end Lexer

/-- **Words are kept apart.**  Tokens of `tokenize` next to each other are `Neighbours`:
they have gaps and nothing else between them.  If each `IsWord` there is a gap indeed,
unless the first `IsInt` and the second `IsDollarName`. -/
theorem words_apart {source : String} {tokens : Tokens} (read : tokenize source = .ok tokens)
    {p q : Placed} (next : [p, q] <:+: tokens.placed) :
    ∃ gaps, Neighbours [] source.toList gaps p q ∧
      (p.token.IsWord → q.token.IsWord →
        gaps ≠ [] ∨ p.token.IsInt ∧ q.token.IsDollarName) := by
  obtain ⟨gaps, near, apart⟩ := Lexer.neighbours_of_tokensFrom [] source.toList read next
  refine ⟨gaps, near, fun isWord isWord' => ?_⟩
  by_cases none : gaps = []
  · exact .inr (apart none isWord isWord')
  · exact .inl none

namespace CommentGap

/-- A comment alone keeps the first two words apart, and a blank the last two. -/
def source : String := "let/**/a=1 $b"

def declaring : Placed := ⟨.keyword .letBinding, 1, 1⟩

def declared : Placed := ⟨.ident "a", 1, 8⟩

def tokens : Tokens where
  placed := [declaring, declared, ⟨.symbol .assign, 1, 9⟩, ⟨.int 1, 1, 10⟩, ⟨.ident "$b", 1, 12⟩]
  finish := ⟨1, 14⟩

theorem declared_apart : tokenize source = .ok tokens ∧ [declaring, declared] <:+: tokens.placed ∧
    ∃ gaps, Neighbours [] source.toList gaps declaring declared ∧ gaps ≠ [] := by
  have evaluated : (tokenize source).toOption = some tokens := by decide +kernel
  have read : tokenize source = .ok tokens := eq_ok_of_toOption evaluated
  have next : [declaring, declared] <:+: tokens.placed := ⟨[], _, rfl⟩
  obtain ⟨gaps, near, apart⟩ := words_apart read next
  refine ⟨read, next, gaps, near, ?_⟩
  rcases apart trivial trivial with some | ⟨int, -⟩
  · exact some
  · cases int

end CommentGap

/-! ## A number that runs into a name -/

theorem Gap.ne_nil {text : List Char} (h : Gap text) : text ≠ [] := by
  cases h <;> exact List.cons_ne_nil _ _

/-- On the first line `column` counts what stands in front. -/
theorem Position.column_behind {text : List Char} (plain : '\n' ∉ text) :
    (behind text).column = text.length + 1 := by
  have all : ∀ c ∈ text.reverse, decide (c ≠ '\n') = true := by
    intro c mem
    refine decide_eq_true fun same => plain ?_
    exact same ▸ List.mem_reverse.1 mem
  unfold behind
  dsimp only
  rw [List.takeWhile_eq_self_iff.2 all, List.length_reverse]

namespace DollarName

/-- Digits with a dollar sign and a letter behind them. -/
def source : String := "1$a"

def digits : Placed := ⟨.int 1, 1, 1⟩

def name : Placed := ⟨.ident "$a", 1, 2⟩

def tokens : Tokens := ⟨[digits, name], 1, 4⟩

/-- Nothing is between tokens of this source that are a column apart. -/
theorem gaps_eq_nil {gaps : List (List Char)}
    (near : Neighbours [] source.toList gaps digits name) : gaps = [] := by
  obtain ⟨front, first, second, rest, whole, lexeme, all, -, place, place'⟩ := near
  have plain : '\n' ∉ source.toList := by decide
  rw [whole] at plain
  simp only [List.mem_append, not_or] at plain
  have plain' : '\n' ∉ front ++ (first ++ gaps.flatten) := by
    simp only [List.mem_append, not_or]
    exact ⟨plain.1, plain.2.1, plain.2.2.1⟩
  have column := Position.column_behind plain.1
  have column' := Position.column_behind plain'
  rw [List.nil_append] at place place'
  rw [← place] at column
  rw [← place', List.length_append, List.length_append] at column'
  have some : 0 < first.length := List.length_pos_iff.2 lexeme.ne_nil
  have none : gaps.flatten.length = 0 := by
    change 1 = _ at column
    change 2 = _ at column'
    omega
  rcases gaps with - | ⟨gap, gaps⟩
  · rfl
  · rw [List.flatten_cons, List.length_append] at none
    have more : 0 < gap.length := List.length_pos_iff.2 (all gap List.mem_cons_self).ne_nil
    omega

/-- The digits and the name are read as two words, with nothing between them. -/
theorem digits_run_on : tokenize source = .ok tokens ∧ [digits, name] <:+: tokens.placed ∧
    digits.token.IsWord ∧ name.token.IsWord ∧
    Neighbours [] source.toList [] digits name ∧
      ∀ gaps, Neighbours [] source.toList gaps digits name → gaps = [] := by
  have evaluated : (tokenize source).toOption = some tokens := by decide +kernel
  have read : tokenize source = .ok tokens := eq_ok_of_toOption evaluated
  have next : [digits, name] <:+: tokens.placed := ⟨[], [], rfl⟩
  obtain ⟨gaps, near, -⟩ := Lexer.neighbours_of_tokensFrom [] source.toList read next
  exact ⟨read, next, trivial, trivial, gaps_eq_nil near ▸ near, fun _ => gaps_eq_nil⟩

end DollarName

end LedgerScript.Script
