import LedgerScript.Proofs.Script.Pieces
import LedgerScript.Proofs.Script.Reading

/-!
# Layouts

Tokens may be spelled in any of their spellings, and laid out with any gaps
(`Laid`): only the first gap behind a spelling must begin with a blank.  However
they are laid out, the tokens are read back (`tokenize_of_laid`).
-/

namespace LedgerScript.Script

open Text (isBlank)

/-- `Laid text ts`: in `text` the tokens `ts` are laid out. -/
inductive Laid : List Char → List Token → Prop where
  | done : Laid [] []
  | gap {text rest : List Char} {ts : List Token} (h : Gap text) (further : Laid rest ts) :
    Laid (text ++ rest) ts
  /-- Behind a spelling stands a blank, unless nothing does. -/
  | token {text rest : List Char} {t : Token} {ts : List Token} (h : Spells text t)
    (apart : ∀ c ∈ rest.head?, isBlank c = true) (further : Laid rest ts) :
    Laid (text ++ rest) (t :: ts)

namespace Laid

variable {text rest : List Char} {t : Token} {ts : List Token}

theorem gaps {texts : List (List Char)} (h : ∀ text ∈ texts, Gap text) (further : Laid rest ts) :
    Laid (texts.flatten ++ rest) ts := by
  induction texts with
  | nil => exact further
  | cons text texts ih =>
    obtain ⟨first, h⟩ := List.forall_mem_cons.1 h
    rw [List.flatten_cons, List.append_assoc]
    exact .gap first (ih h)

theorem last (h : Spells text t) : Laid text [t] := by
  have laid := Laid.token h (by simp) .done
  rwa [List.append_nil] at laid

/-- A token, a blank and gaps, and further tokens. -/
theorem cons {c : Char} {texts : List (List Char)} (h : Spells text t) (blank : isBlank c = true)
    (between : ∀ text ∈ texts, Gap text) (further : Laid rest ts) :
    Laid (text ++ c :: (texts.flatten ++ rest)) (t :: ts) :=
  .token h (by simpa using blank) (.gap (.blank blank) (.gaps between further))

theorem layout (legal : ∀ t ∈ ts, t.legal = true) : Laid (layout ts) ts := by
  induction ts with
  | nil => exact .done
  | cons t ts ih =>
    obtain ⟨first, legal⟩ := List.forall_mem_cons.1 legal
    have laid : Laid (t.text ++ ' ' :: Script.layout ts) (t :: ts) :=
      .cons (Token.spells_text first) (by decide) (List.forall_mem_nil _) (ih legal)
    simpa [Script.layout] using laid

end Laid

namespace Lexer

theorem tokensFrom_of_laid {source : List Char} {ts : List Token} (h : Laid source ts)
    (position : Position) : ∃ placed,
      tokensFrom source position = .ok ⟨placed, position.across source⟩ ∧
        placed.map Placed.token = ts := by
  induction h generalizing position with
  | done =>
    refine ⟨[], ?_, rfl⟩
    rw [tokensFrom]
    rfl
  | gap h further ih =>
    obtain ⟨placed, read, same⟩ := ih (position.across _)
    refine ⟨placed, ?_, same⟩
    rw [tokensFrom_of_gap (piece_of_gap h _), read, Position.across_append]
  | @token text rest t ts h apart further ih =>
    have cut : piece (text ++ rest) = .token t text rest := by
      cases rest with
      | nil => rw [List.append_nil, piece_of_spells_alone h]
      | cons c rest => exact piece_of_spells h (apart c rfl) rest
    obtain ⟨placed, read, same⟩ := ih (position.across text)
    refine ⟨⟨t, position⟩ :: placed, ?_, congrArg (t :: ·) same⟩
    rw [tokensFrom_of_token cut read, Position.across_append]

end Lexer

/-- **Layout does not matter.**  If the tokens `ts` are `Laid` out in a source, whatever
their spellings and the gaps between them, `tokenize` reads exactly `ts`, and then the end
of the source. -/
theorem tokenize_of_laid {source : String} {ts : List Token} (h : Laid source.toList ts) :
    ∃ placed, tokenize source = .ok ⟨placed, Position.start.across source.toList⟩ ∧
      placed.map Placed.token = ts :=
  Lexer.tokensFrom_of_laid h .start

namespace MixedQuotes

/-- Both quotes, and comments that hold quotes, stars and slashes. -/
def source : String :=
  "var a\t/* '*' / \" ** // *//**/\n=== // it's /*\n\r'a\\'\"\\n\\\\' !== / \"/*'\" * undefined"

def tokens : List Token :=
  [.keyword .letBinding, .ident "a", .symbol .equal, .str "a'\"\n\\", .symbol .notEqual,
    .symbol .slash, .str "/*'", .symbol .star, .keyword .nullValue]

theorem laid : Laid source.toList tokens := by
  have keyword : ∀ p ∈ Keyword.spellings, Spells p.1.toList (.keyword p.2) :=
    fun p listed => .keyword listed
  have symbol : ∀ p ∈ Symbol.spellings, Spells p.1 (.symbol p.2) := fun p listed => .symbol listed
  have block : Gap ('/' :: '*' :: (" '*' / \" ** // ".toList ++ ['*', '/'])) :=
    .block (by decide +kernel)
  have empty : Gap ['/', '*', '*', '/'] := @Gap.block [] (by decide)
  have newline : Gap ['\n'] := .blank (by decide)
  have line : Gap ('/' :: '/' :: (" it's /*".toList ++ ['\n'])) := .line (by decide +kernel)
  have carriage : Gap ['\r'] := .blank (by decide)
  have space : isBlank ' ' = true := by decide
  have tab : isBlank '\t' = true := by decide
  have none : ∀ text ∈ [], Gap text := by simp
  have two : ∀ text ∈ [_, _], Gap text := List.forall_mem_cons.2
    ⟨line, List.forall_mem_cons.2 ⟨carriage, none⟩⟩
  have three : ∀ text ∈ [_, _, _], Gap text := List.forall_mem_cons.2
    ⟨block, List.forall_mem_cons.2 ⟨empty, List.forall_mem_cons.2 ⟨newline, none⟩⟩⟩
  have whole :=
    Laid.cons (keyword ("var", .letBinding) (by decide)) space none <|
    Laid.cons (.name (s := "a") (by decide)) tab three <|
    Laid.cons (symbol (['=', '=', '='], .equal) (by decide)) space two <|
    Laid.cons (.string (.inr rfl) "a'\"\n\\") space none <|
    Laid.cons (symbol (['!', '=', '='], .notEqual) (by decide)) space none <|
    Laid.cons (symbol (['/'], .slash) (by decide)) space none <|
    Laid.cons (.string (.inl rfl) "/*'") space none <|
    Laid.cons (symbol (['*'], .star) (by decide)) space none <|
    Laid.last (keyword ("undefined", .nullValue) (by decide))
  exact (congrArg (Laid · tokens) (by decide +kernel : _ = source.toList)).mp whole

theorem tokenize_source : Laid source.toList tokens ∧
    ∃ placed, tokenize source = .ok ⟨placed, Position.start.across source.toList⟩ ∧
      placed.map Placed.token = tokens :=
  ⟨laid, tokenize_of_laid laid⟩

end MixedQuotes

/-- `tokenize` reads back the `layout` of tokens, which has a space behind each. -/
theorem tokenize_layout {ts : List Token} (legal : ∀ t ∈ ts, t.legal = true) :
    ∃ tokens, tokenize (String.ofList (layout ts)) = .ok tokens ∧ tokens.list = ts := by
  have laid : Laid (String.ofList (layout ts)).toList ts := by
    rw [String.toList_ofList]
    exact .layout legal
  obtain ⟨placed, read, same⟩ := Lexer.tokensFrom_of_laid laid .start
  exact ⟨_, read, same⟩

end LedgerScript.Script
