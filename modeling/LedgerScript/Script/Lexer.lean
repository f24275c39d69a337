import LedgerScript.Script.ParseError
import LedgerScript.Text.Character
import LedgerScript.Text.Integer

/-!
# Reading tokens

A source is cut into pieces from the left: blanks and comments, which are
gaps, and tokens.  Each piece carries its own text, so the texts of all pieces
put together are the source, and the place of a piece is the place after the
texts before it.
-/

namespace LedgerScript.Script

open Text (isBlank)

namespace Lexer

/-! ## Comments -/

/-- Cuts after the first newline. -/
def cutLine : List Char → List Char × List Char
  | [] => ([], [])
  | '\n' :: rest => (['\n'], rest)
  | c :: rest => (c :: (cutLine rest).1, (cutLine rest).2)

/-- Cuts after the first end of a block comment. -/
def cutComment? : List Char → Option (List Char × List Char)
  | [] => none
  | '*' :: '/' :: rest => some (['*', '/'], rest)
  | c :: rest => (cutComment? rest).map fun (text, rest) => (c :: text, rest)

/-! ## Words -/

/-- A character that may start a name. -/
def isNameStart (c : Char) : Bool :=
  c.isAlpha || c = '_' || c = '$'

/-- A character that may continue a name. -/
def isNamePart (c : Char) : Bool :=
  c.isAlphanum || c = '_' || c = '$'

/-- A word is a reserved word or a name. -/
def wordToken (word : String) : Token :=
  match Keyword.ofWord? word with
  | some k => .keyword k
  | none => .ident word

/-! ## Strings -/

/-- The character that an escape stands for. -/
def escape? (c : Char) : Option Char :=
  match c with
  | 'n' => some '\n'
  | 't' => some '\t'
  | 'r' => some '\r'
  | '0' => some '\x00'
  | '\\' => some '\\'
  | '"' => some '"'
  | '\'' => some '\''
  | _ => none

/-- What follows an opening quote. -/
inductive StringBody where
  /-- The value, the text up to and with the closing quote, and the rest. -/
  | closed (value text rest : List Char)
  /-- The line or the source ends first. -/
  | unclosed
  /-- An escape of `c` follows the text `before`. -/
  | badEscape (before : List Char) (c : Char)

/-- Puts one more character in front of a body. -/
def StringBody.cons (value : Char) (text : List Char) : StringBody → StringBody
  | closed v t rest => closed (value :: v) (text ++ t) rest
  | unclosed => unclosed
  | badEscape before c => badEscape (text ++ before) c

/-- Reads up to the closing quote. -/
def stringBody (quote : Char) : List Char → StringBody
  | [] => .unclosed
  | '\\' :: [] => .unclosed
  | '\\' :: c :: rest =>
    match escape? c with
    | some value => (stringBody quote rest).cons value ['\\', c]
    | none => .badEscape ['\\'] c
  | c :: rest =>
    if c = quote then .closed [] [c] rest
    else if c = '\n' then .unclosed
    else (stringBody quote rest).cons c [c]

/-! ## Pieces -/

/-- What a source starts with. -/
inductive Piece where
  /-- Nothing is left. -/
  | finish
  /-- A blank or a comment. -/
  | gap (text rest : List Char)
  /-- A token with its text. -/
  | token (t : Token) (text rest : List Char)
  /-- A fault after the text `before`. -/
  | fault (f : ParseFault) (before : List Char)

/-- A number must not run into a name or a fraction. -/
def number (source : List Char) : Piece :=
  let digits := source.takeWhile Char.isDigit
  let rest := source.dropWhile Char.isDigit
  let range :=
    match Text.readDigits 0x7fffffffffffffff .tooLarge 0 digits with
    | .ok n => .token (.int (Int64.ofNat n)) digits rest
    | .error _ => .fault (.integerOutOfRange (String.ofList digits)) []
  match rest with
  | [] => range
  | c :: _ =>
    if c = '.' ∨ c = 'e' ∨ c = 'E' then .fault .floatingPoint []
    else if c.isAlpha ∨ c = '_' then .fault (.invalidNumber (String.ofList digits) c) []
    else range

/-- A string from its opening quote on. -/
def string (quote : Char) (source : List Char) : Piece :=
  match stringBody quote source with
  | .closed value text rest => .token (.str (String.ofList value)) (quote :: text) rest
  | .unclosed => .fault .unterminatedString []
  | .badEscape before c => .fault (.unknownEscape c) (quote :: before)

/-- A name or a reserved word. -/
def word (source : List Char) : Piece :=
  let text := source.takeWhile isNamePart
  .token (wordToken (String.ofList text)) text (source.dropWhile isNamePart)

/-- A delimiter or an operator. -/
def symbol (c : Char) (source : List Char) : Piece :=
  match Symbol.read? source with
  | some (text, s) => .token (.symbol s) text (source.drop text.length)
  | none => .fault (.unexpectedCharacter c) []

/-- The first piece of a source. -/
def piece : List Char → Piece
  | [] => .finish
  | '/' :: '/' :: rest => .gap ('/' :: '/' :: (cutLine rest).1) (cutLine rest).2
  | '/' :: '*' :: rest =>
    match cutComment? rest with
    | some (text, rest) => .gap ('/' :: '*' :: text) rest
    | none => .fault .unterminatedComment []
  | c :: rest =>
    if isBlank c then .gap [c] rest
    else if c.isDigit then number (c :: rest)
    else if c = '"' ∨ c = '\'' then string c rest
    else if isNameStart c then word (c :: rest)
    else symbol c (c :: rest)

/-! ## The texts of pieces -/

theorem cutLine_append (cs : List Char) : (cutLine cs).1 ++ (cutLine cs).2 = cs := by
  fun_induction cutLine cs <;> simp_all

theorem cutComment?_append {cs text rest : List Char}
    (h : cutComment? cs = some (text, rest)) : text ++ rest = cs := by
  fun_induction cutComment? cs generalizing text with
  | case1 => contradiction
  | case2 rest =>
    simp only [Option.some.injEq, Prod.mk.injEq] at h
    obtain ⟨rfl, rfl⟩ := h
    rfl
  | case3 c cs _ ih =>
    simp only [Option.map_eq_some_iff, Prod.exists, Prod.mk.injEq] at h
    obtain ⟨t, r, hr, rfl, rfl⟩ := h
    simp [ih hr]

theorem StringBody.cons_eq_closed {body : StringBody} {c : Char}
    {piece value text rest : List Char} (h : body.cons c piece = closed value text rest) :
    ∃ v t, body = closed v t rest ∧ value = c :: v ∧ text = piece ++ t := by
  cases body with
  | closed v t r =>
    simp only [cons, closed.injEq] at h
    obtain ⟨rfl, rfl, rfl⟩ := h
    exact ⟨v, t, rfl, rfl, rfl⟩
  | unclosed => contradiction
  | badEscape => contradiction

theorem stringBody_append {quote : Char} {cs value text rest : List Char}
    (h : stringBody quote cs = .closed value text rest) : text ++ rest = cs := by
  fun_induction stringBody quote cs generalizing value text with
  | case1 => contradiction
  | case2 => contradiction
  | case3 c cs _ _ ih =>
    obtain ⟨v, t, hb, -, rfl⟩ := StringBody.cons_eq_closed h
    simp [ih hb]
  | case4 => contradiction
  | case5 =>
    simp only [StringBody.closed.injEq] at h
    obtain ⟨-, rfl, rfl⟩ := h
    simp_all
  | case6 => contradiction
  | case7 c cs _ _ _ _ ih =>
    obtain ⟨v, t, hb, -, rfl⟩ := StringBody.cons_eq_closed h
    simp [ih hb]

/-- The rest of a piece is shorter than its source. -/
def Piece.Shorter (n : Nat) : Piece → Prop
  | gap _ rest => rest.length < n
  | token _ _ rest => rest.length < n
  | _ => True

theorem length_dropWhile_lt {p : Char → Bool} {c : Char} {rest : List Char}
    (h : p c = true) : ((c :: rest).dropWhile p).length < (c :: rest).length := by
  rw [List.dropWhile_cons_of_pos h]
  have := (List.dropWhile_sublist (l := rest) p).length_le
  simp only [List.length_cons]
  omega

theorem number_shorter {c : Char} {rest : List Char} (h : c.isDigit = true) :
    (number (c :: rest)).Shorter (c :: rest).length := by
  have : ((c :: rest).dropWhile Char.isDigit).length < (c :: rest).length :=
    length_dropWhile_lt h
  unfold number
  dsimp only
  split <;> split <;> (try split) <;> (try split) <;> first | exact this | trivial

theorem symbol_shorter {c : Char} {rest : List Char} :
    (symbol c (c :: rest)).Shorter (c :: rest).length := by
  unfold symbol
  split
  · next text s h =>
    have nonempty : ∀ p ∈ Symbol.spellings, 0 < p.1.length := by decide
    have : 0 < text.length := nonempty _ (Symbol.read?_eq_some h).1
    simp only [Piece.Shorter, List.length_drop, List.length_cons]
    omega
  · trivial

/-- Every piece takes at least one character. -/
theorem piece_shorter (source : List Char) : (piece source).Shorter source.length := by
  unfold piece
  split
  · trivial
  · next rest =>
    have := congrArg List.length (cutLine_append rest)
    simp only [List.length_append] at this
    simp only [Piece.Shorter, List.length_cons]
    omega
  · next rest =>
    split
    · next text more h =>
      have := congrArg List.length (cutComment?_append h)
      simp only [List.length_append] at this
      simp only [Piece.Shorter, List.length_cons]
      omega
    · trivial
  · next c rest _ _ =>
    split
    · simp [Piece.Shorter]
    · split
      · exact number_shorter ‹_›
      · split
        · unfold string
          split
          · next value text more h =>
            have := congrArg List.length (stringBody_append h)
            simp only [List.length_append] at this
            simp only [Piece.Shorter, List.length_cons]
            omega
          · trivial
          · trivial
        · split
          · next start =>
            have part : isNamePart c = true := by
              simp only [isNameStart, isNamePart, Bool.or_eq_true, Char.isAlphanum] at start ⊢
              rcases start with (h | h) | h
              · exact .inl (.inl (.inl h))
              · exact .inl (.inr h)
              · exact .inr h
            exact length_dropWhile_lt part
          · exact symbol_shorter

end Lexer

/-! ## All tokens -/

/-- Reads tokens from `position` to the end of the source. -/
def Lexer.tokensFrom (source : List Char) (position : Position) :
    Except ParseError Tokens :=
  match h : piece source with
  | .finish => .ok ⟨[], position⟩
  | .gap text rest =>
    have := h ▸ piece_shorter source
    tokensFrom rest (position.across text)
  | .token t text rest =>
    have := h ▸ piece_shorter source
    match tokensFrom rest (position.across text) with
    | .ok tokens => .ok { tokens with placed := ⟨t, position⟩ :: tokens.placed }
    | .error e => .error e
  | .fault f before => .error ⟨f, position.across before⟩
termination_by source.length

/-- The tokens of a whole source. -/
def tokenize (source : String) : Except ParseError Tokens :=
  Lexer.tokensFrom source.toList .start

end LedgerScript.Script
