import LedgerScript.Proofs.Script.Grammar
import LedgerScript.Proofs.Sequence

/-!
# Places of tokens and faults

A source is made of gaps and the lexemes of its tokens, each token at the place behind
the text before it (`Sliced`), and a fault is found at the place behind some beginning
of the source (`places_exact`).
-/

namespace LedgerScript.Script

namespace Position

/-- The place behind a text: a line more than newlines, and a column more than
characters behind the last of them. -/
def behind (text : List Char) : Position :=
  ⟨text.count '\n' + 1, (text.reverse.takeWhile (· ≠ '\n')).length + 1⟩

theorem after_behind (text : List Char) (c : Char) :
    (behind text).after c = behind (text ++ [c]) := by
  by_cases newline : c = '\n' <;> simp [behind, after, newline]

theorem across_behind (before text : List Char) :
    (behind before).across text = behind (before ++ text) := by
  induction text generalizing before with
  | nil => rw [across_nil, List.append_nil]
  | cons c text ih => rw [across_cons, after_behind, ih, List.append_assoc, List.singleton_append]

/-- `p.Precedes q`: `p` is on an earlier line, or in an earlier column of the same line. -/
def Precedes (p q : Position) : Prop :=
  p.line < q.line ∨ p.line = q.line ∧ p.column < q.column

theorem Precedes.trans {p q r : Position} (h : p.Precedes q) (h' : q.Precedes r) :
    p.Precedes r := by
  unfold Precedes at *
  omega

theorem precedes_after (p : Position) (c : Char) : p.Precedes (p.after c) := by
  unfold Precedes after
  split <;> simp

theorem precedes_across (p : Position) {text : List Char} (h : text ≠ []) :
    p.Precedes (p.across text) := by
  induction text generalizing p with
  | nil => exact absurd rfl h
  | cons c text ih =>
    rw [across_cons]
    by_cases last : text = []
    · rw [last]
      exact precedes_after p c
    · exact (precedes_after p c).trans (ih _ last)

theorem precedes_behind (before : List Char) {text : List Char} (h : text ≠ []) :
    (behind before).Precedes (behind (before ++ text)) := by
  rw [← across_behind]
  exact precedes_across _ h

end Position

/-- What stands behind `before` is gaps and the lexemes of tokens, each token at the place
of its first character; a comment may be left open at the end. -/
inductive Sliced : (before source : List Char) → List Placed → Prop where
  | finish {before : List Char} : Sliced before [] []
  | comment {before text : List Char} (h : OpenComment text) : Sliced before text []
  | gap {before text rest : List Char} {placed : List Placed} (h : Gap text)
    (further : Sliced (before ++ text) rest placed) : Sliced before (text ++ rest) placed
  | token {before text rest : List Char} {t : Token} {placed : List Placed} (h : Lexeme text t)
    (further : Sliced (before ++ text) rest placed) :
    Sliced before (text ++ rest) (⟨t, .behind before⟩ :: placed)

/-- The place of a character of `source`, which stands behind `before`, or of its end. -/
def Position.Inside (before source : List Char) (p : Position) : Prop :=
  ∃ text, text <+: source ∧ p = .behind (before ++ text)

theorem Position.Inside.append {p : Position} {before text rest : List Char}
    (h : p.Inside (before ++ text) rest) : p.Inside before (text ++ rest) := by
  obtain ⟨further, inside, place⟩ := h
  refine ⟨text ++ further, (List.prefix_append_right_inj text).2 inside, ?_⟩
  rw [place, List.append_assoc]

namespace Lexer

/-- The tokens and the end of `source` are where they should be behind `before`; or it is
refused at one of its places. -/
def Located (before source : List Char) : Except ParseError Tokens → Prop
  | .ok tokens => Sliced before source tokens.placed ∧ tokens.finish = .behind (before ++ source)
  | .error e => e.position.Inside before source

theorem tokensFrom_nil (position : Position) : tokensFrom [] position = .ok ⟨[], position⟩ := by
  rw [tokensFrom]
  rfl

theorem located_tokensFrom (before source : List Char) :
    Located before source (tokensFrom source (.behind before)) := by
  generalize start : Position.behind before = position
  fun_induction tokensFrom source position generalizing before with
  | case1 source position cut =>
    cases Piece.of_eq cut
    exact ⟨.finish, by rw [List.append_nil]; exact start.symm⟩
  | case2 source position text rest cut _ ih =>
    obtain ⟨rfl, gap | ⟨rfl, comment⟩⟩ := Piece.of_eq cut
    · have further := ih (before ++ text) (by rw [← start, Position.across_behind])
      cases read : tokensFrom rest (position.across text) with
      | error e =>
        rw [read] at further
        exact Position.Inside.append further
      | ok tokens =>
        rw [read] at further
        exact ⟨.gap gap further.1, by rw [further.2, List.append_assoc]⟩
    · rw [tokensFrom_nil, ← start, Position.across_behind, List.append_nil]
      exact ⟨.comment comment, rfl⟩
  | case3 source position t text rest cut _ tokens read ih =>
    obtain ⟨rfl, lexeme⟩ := Piece.of_eq cut
    have further := ih (before ++ text) (by rw [← start, Position.across_behind])
    rw [read] at further
    subst start
    exact ⟨.token lexeme further.1, by rw [further.2, List.append_assoc]⟩
  | case4 source position t text rest cut _ e read ih =>
    obtain ⟨rfl, -⟩ := Piece.of_eq cut
    have further := ih (before ++ text) (by rw [← start, Position.across_behind])
    rw [read] at further
    exact Position.Inside.append further
  | case5 source position f text cut =>
    exact ⟨text, Piece.of_eq cut, by rw [← start, Position.across_behind]⟩

end Lexer

namespace Sliced

variable {before source : List Char} {placed : List Placed}

theorem legal (h : Sliced before source placed) : ∀ p ∈ placed, p.token.legal = true := by
  induction h with
  | finish => simp
  | comment => simp
  | gap _ _ ih => exact ih
  | token h _ ih => exact List.forall_mem_cons.2 ⟨h.legal, ih⟩

theorem places (h : Sliced before source placed) :
    ∀ p ∈ placed, p.position.Inside before source := by
  induction h with
  | finish => simp
  | comment => simp
  | gap _ _ ih => exact fun p mem => (ih p mem).append
  | token _ _ ih =>
    exact List.forall_mem_cons.2 ⟨⟨[], List.nil_prefix, by simp⟩, fun p mem => (ih p mem).append⟩

/-- Every token stands before the next one, and the last one before the end. -/
theorem pairwise (h : Sliced before source placed) :
    (placed.map Placed.position ++ [Position.behind (before ++ source)]).Pairwise
      Position.Precedes := by
  induction h with
  | finish => simp
  | comment => simp
  | gap _ _ ih =>
    rw [← List.append_assoc]
    exact ih
  | @token before text rest t placed lexeme further ih =>
    have later : ∀ more, (Position.behind before).Precedes (.behind (before ++ text ++ more)) := by
      intro more
      rw [List.append_assoc]
      exact Position.precedes_behind before (by simp [lexeme.ne_nil])
    rw [List.append_assoc] at ih
    refine List.pairwise_cons.2 ⟨fun q mem => ?_, ih⟩
    rcases List.mem_append.1 mem with inside | last
    · obtain ⟨p, listed, rfl⟩ := List.mem_map.1 inside
      obtain ⟨more, -, place⟩ := further.places p listed
      exact place ▸ later more
    · cases List.mem_singleton.1 last
      rw [← List.append_assoc]
      exact later rest

end Sliced

/-! ## Whole sources -/

theorem located_tokenize (source : String) : Lexer.Located [] source.toList (tokenize source) :=
  Lexer.located_tokensFrom [] source.toList

/-- `parse` gives a program that is `WellFormed`, or refuses the source at one of its
places. -/
theorem parse_cases (source : String) (maxDepth : Nat) :
    match parse source maxDepth with
    | .ok p => p.WellFormed
    | .error e => e.position.Inside [] source.toList := by
  have located := located_tokenize source
  unfold parse
  cases read : tokenize source with
  | error e =>
    rw [read] at located
    exact located
  | ok tokens =>
    rw [read] at located
    obtain ⟨sliced, finish⟩ := located
    have sound : Parser.Sound (Position.Inside [] source.toList) tokens :=
      ⟨fun p mem => ⟨sliced.legal p mem, sliced.places p mem⟩, _, List.prefix_refl _, finish⟩
    have outside : (⟨maxDepth, maxDepth, false⟩ : Parser.Scope).inLoop = false := rfl
    have yields := Parser.yields_declarations outside (tokens.placed.length + 1) .empty sound
    change match Parser.declarations _ _ _ tokens >>= fun p => pure p.1 with
      | .ok p => _
      | .error e => _
    cases ran : Parser.declarations ⟨maxDepth, maxDepth, false⟩ (tokens.placed.length + 1) {}
        tokens with
    | error e =>
      rw [ran] at yields
      exact yields
    | ok p =>
      rw [ran] at yields
      exact yields.1

/-- **Places are exact.**  Behind `tokenize` a source is `Sliced`: every token stands at
the place behind all text before it, and nothing but gaps between it and the next one.
Each place `Precedes` those that follow, and the end is the place behind the source.  A
source that `parse` refuses, whatever the limit, is refused at one of its characters or at
its end. -/
theorem places_exact (source : String) :
    (∀ tokens, tokenize source = .ok tokens →
      Sliced [] source.toList tokens.placed ∧ tokens.finish = .behind source.toList ∧
        (tokens.placed.map Placed.position ++ [tokens.finish]).Pairwise Position.Precedes) ∧
      ∀ maxDepth e, parse source maxDepth = .error e →
        ∃ text, text <+: source.toList ∧ e.position = .behind text := by
  have located := located_tokenize source
  refine ⟨fun tokens read => ?_, fun maxDepth e refused => ?_⟩
  · rw [read] at located
    obtain ⟨sliced, finish⟩ := located
    refine ⟨sliced, finish, ?_⟩
    rw [finish]
    exact sliced.pairwise
  · have cases := parse_cases source maxDepth
    rw [refused] at cases
    exact cases

namespace StrayString

/-- A string behind a declaration, with a comment of two lines between them. -/
def source : String := "let a // 1\n = 2 /*\n\"*/  \"b\\n\" // "

def tokens : Tokens where
  placed := [⟨.keyword .letBinding, 1, 1⟩, ⟨.ident "a", 1, 5⟩, ⟨.symbol .assign, 2, 2⟩,
    ⟨.int 2, 2, 4⟩, ⟨.str "b\n", 3, 6⟩]
  finish := ⟨3, 15⟩

theorem tokenize_eq : tokenize source = .ok tokens := by
  have evaluated : (tokenize source).toOption = some tokens := by decide +kernel
  exact eq_ok_of_toOption evaluated

theorem parse_eq : parse source 9 = .error ⟨.notTopLevel, 3, 6⟩ :=
  eq_error_of_error? (by decide +kernel)

theorem token_places : (tokenize source = .ok tokens ∧ Sliced [] source.toList tokens.placed ∧
    tokens.finish = .behind source.toList ∧
      (tokens.placed.map Placed.position ++ [tokens.finish]).Pairwise Position.Precedes) ∧
    parse source 9 = .error ⟨.notTopLevel, 3, 6⟩ ∧
      ∃ text, text <+: source.toList ∧ (⟨3, 6⟩ : Position) = .behind text :=
  ⟨⟨tokenize_eq, (places_exact source).1 tokens tokenize_eq⟩, parse_eq,
    (places_exact source).2 9 _ parse_eq⟩

end StrayString

end LedgerScript.Script
