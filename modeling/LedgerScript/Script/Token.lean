/-!
# Places, words and symbols of a script

A place in a source is a line and a column.  Both count from one, and a column counts
characters.

A source is a sequence of tokens: names, integers, strings, reserved words and
symbols.  Reserved words and symbols are tables of spellings, which the reader
of tokens and their renderer share.
-/

namespace LedgerScript.Script

/-! ## Places -/

/-- A place between two characters of a source. -/
structure Position where
  line : Nat
  column : Nat
  deriving DecidableEq, Repr

namespace Position

/-- The place before the first character. -/
def start : Position := ⟨1, 1⟩

/-- The place after `c`. -/
def after (p : Position) (c : Char) : Position :=
  if c = '\n' then ⟨p.line + 1, 1⟩ else ⟨p.line, p.column + 1⟩

/-- The place after a stretch of text. -/
def across (p : Position) (text : List Char) : Position :=
  text.foldl after p

@[simp] theorem across_nil (p : Position) : p.across [] = p := rfl

@[simp] theorem across_cons (p : Position) (c : Char) (text : List Char) :
    p.across (c :: text) = (p.after c).across text := rfl

/-- Passing two stretches one after the other is passing both at once. -/
theorem across_append (p : Position) (first second : List Char) :
    p.across (first ++ second) = (p.across first).across second :=
  List.foldl_append ..

/-- The line grows by the newlines that are passed. -/
theorem line_across (p : Position) (text : List Char) :
    (p.across text).line = p.line + text.count '\n' := by
  induction text generalizing p with
  | nil => rfl
  | cons c text ih =>
    rw [across_cons, ih, List.count_cons]
    by_cases h : c = '\n' <;> simp [after, h]
    omega

end Position

/-! ## Reserved words -/

/-- The reserved words by what they say. -/
inductive Keyword where
  | function
  | letBinding
  | constBinding
  | ifBranch
  | elseBranch
  | whileLoop
  | returnValue
  | breakLoop
  | continueLoop
  | throwValue
  | trueValue
  | falseValue
  | nullValue
  deriving DecidableEq, Repr

namespace Keyword

/-- Every spelling of every reserved word. -/
def spellings : List (String × Keyword) :=
  [("function", function), ("let", letBinding), ("var", letBinding),
    ("const", constBinding), ("if", ifBranch), ("else", elseBranch),
    ("while", whileLoop), ("return", returnValue), ("break", breakLoop),
    ("continue", continueLoop), ("throw", throwValue), ("true", trueValue),
    ("false", falseValue), ("null", nullValue), ("undefined", nullValue)]

/-- The reserved word that a word spells. -/
def ofWord? (word : String) : Option Keyword :=
  spellings.lookup word

/-- The name of a reserved word in messages. -/
def label : Keyword → String
  | function => "Function"
  | letBinding => "Let"
  | constBinding => "Const"
  | ifBranch => "If"
  | elseBranch => "Else"
  | whileLoop => "While"
  | returnValue => "Return"
  | breakLoop => "Break"
  | continueLoop => "Continue"
  | throwValue => "Throw"
  | trueValue => "True"
  | falseValue => "False"
  | nullValue => "Null"

end Keyword

/-! ## Symbols -/

/-- Delimiters and operators. -/
inductive Symbol where
  | leftParen
  | rightParen
  | leftBrace
  | rightBrace
  | leftBracket
  | rightBracket
  | comma
  | semicolon
  | colon
  | dot
  | assign
  | plusAssign
  | minusAssign
  | equal
  | notEqual
  | less
  | lessEqual
  | greater
  | greaterEqual
  | plus
  | minus
  | star
  | slash
  | percent
  | bang
  | andAnd
  | orOr
  deriving DecidableEq, Repr

namespace Symbol

/-- Every spelling of every symbol.  A spelling stands before those that start
it, so the first match is the longest. -/
def spellings : List (List Char × Symbol) :=
  [(['=', '=', '='], equal), (['=', '='], equal), (['='], assign),
    (['!', '=', '='], notEqual), (['!', '='], notEqual), (['!'], bang),
    (['+', '='], plusAssign), (['+'], plus), (['-', '='], minusAssign), (['-'], minus),
    (['<', '='], lessEqual), (['<'], less), (['>', '='], greaterEqual), (['>'], greater),
    (['&', '&'], andAnd), (['|', '|'], orOr),
    (['('], leftParen), ([')'], rightParen), (['\x7b'], leftBrace), (['\x7d'], rightBrace),
    (['['], leftBracket), ([']'], rightBracket), ([','], comma), ([';'], semicolon),
    ([':'], colon), (['.'], dot), (['*'], star), (['/'], slash), (['%'], percent)]

/-- The longest spelling that `source` starts with. -/
def read? (source : List Char) : Option (List Char × Symbol) :=
  spellings.find? fun (text, _) => text.isPrefixOf source

/-- The name of a symbol in messages. -/
def label : Symbol → String
  | leftParen => "LParen"
  | rightParen => "RParen"
  | leftBrace => "LBrace"
  | rightBrace => "RBrace"
  | leftBracket => "LBracket"
  | rightBracket => "RBracket"
  | comma => "Comma"
  | semicolon => "Semicolon"
  | colon => "Colon"
  | dot => "Dot"
  | assign => "Assign"
  | plusAssign => "PlusAssign"
  | minusAssign => "MinusAssign"
  | equal => "Eq"
  | notEqual => "NotEq"
  | less => "Lt"
  | lessEqual => "LtEq"
  | greater => "Gt"
  | greaterEqual => "GtEq"
  | plus => "Plus"
  | minus => "Minus"
  | star => "Star"
  | slash => "Slash"
  | percent => "Percent"
  | bang => "Bang"
  | andAnd => "AndAnd"
  | orOr => "OrOr"

/-- What is read is a spelling of the table, and the source starts with it. -/
theorem read?_eq_some {source text : List Char} {s : Symbol}
    (h : read? source = some (text, s)) :
    (text, s) ∈ spellings ∧ text.isPrefixOf source = true :=
  ⟨List.mem_of_find?_eq_some h, by simpa using List.find?_some h⟩

end Symbol

/-! ## Tokens -/

/-- What a script is made of. -/
inductive Token where
  /-- A name that is no reserved word. -/
  | ident (name : String)
  /-- An integer literal. -/
  | int (n : Int64)
  /-- A string literal with its escapes resolved. -/
  | str (s : String)
  /-- A reserved word. -/
  | keyword (k : Keyword)
  /-- A delimiter or an operator. -/
  | symbol (s : Symbol)
  deriving DecidableEq

/-- A token and the place of its first character. -/
structure Placed where
  token : Token
  position : Position
  deriving DecidableEq

/-- The tokens of a source and the place where it ends. -/
structure Tokens where
  placed : List Placed
  finish : Position
  deriving DecidableEq

end LedgerScript.Script
