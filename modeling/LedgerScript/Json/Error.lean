import LedgerScript.Text.Character
import LedgerScript.Text.Hex

/-!
# Why a document is refused

A document can break the grammar of JSON, and it can hold something else than
what is wanted.  Both are reported with a place: the line, and the bytes read
of that line.
-/

namespace LedgerScript.Json

/-- A place in a document: the line, counted from one, and how many of its
bytes come before the place. -/
structure Place where
  line : Nat
  column : Nat
  deriving DecidableEq, Repr

namespace Place

/-- The place before the first byte. -/
def start : Place := ⟨1, 0⟩

/-- The place after the byte `b`. -/
def after (p : Place) (b : UInt8) : Place :=
  if b = 0x0a then ⟨p.line + 1, 0⟩ else ⟨p.line, p.column + 1⟩

end Place

/-- What a document holds where something else is wanted. -/
inductive Found where
  | null
  | bool (b : Bool)
  | integer (n : Int)
  /-- A number with a fraction or an exponent, or too large for an integer,
  by its shortest decimal text. -/
  | real (text : String)
  | string (s : String)
  | sequence
  | map
  | unitVariant
  deriving DecidableEq

/-- The wording of a find. -/
def Found.text : Found → String
  | null => "null"
  | bool b => s!"boolean `{b}`"
  | integer n => s!"integer `{n}`"
  | real text => s!"floating point `{text}`"
  | string s => "string " ++ Text.quoted s
  | sequence => "sequence"
  | map => "map"
  | unitVariant => "unit variant"

/-- Why a document is refused. -/
inductive Fault where
  | eofInList
  | eofInObject
  | eofInString
  | eofInValue
  | expectedColon
  | expectedListCommaOrEnd
  | expectedObjectCommaOrEnd
  | expectedIdent
  | expectedValue
  | invalidEscape
  | invalidNumber
  | numberOutOfRange
  | invalidUnicode
  | controlCharacter
  | keyMustBeString
  | loneSurrogate
  | trailingComma
  | trailingCharacters
  | endOfHexEscape
  | recursionLimit
  | invalidType (found : Found) (wanted : String)
  | invalidValue (found : Found) (wanted : String)
  | invalidLength (length : Nat) (wanted : String)
  | missingField (name : String)
  | duplicateField (name : String)
  | unknownVariant (name : String) (known : List String)
  /-- The document is none of the alternatives of the type. -/
  | noAlternative (type : String)
  | badHex (fault : Text.HexFault)
  deriving DecidableEq

/-- A choice of names in words. -/
def oneOf : List String → String
  | [] => "there are no variants"
  | [a] => s!"expected `{a}`"
  | [a, b] => s!"expected `{a}` or `{b}`"
  | names => "expected one of " ++ ", ".intercalate (names.map fun n => s!"`{n}`")

/-- The wording of a fault. -/
def Fault.message : Fault → String
  | eofInList => "EOF while parsing a list"
  | eofInObject => "EOF while parsing an object"
  | eofInString => "EOF while parsing a string"
  | eofInValue => "EOF while parsing a value"
  | expectedColon => "expected `:`"
  | expectedListCommaOrEnd => "expected `,` or `]`"
  | expectedObjectCommaOrEnd => "expected `,` or `\x7d`"
  | expectedIdent => "expected ident"
  | expectedValue => "expected value"
  | invalidEscape => "invalid escape"
  | invalidNumber => "invalid number"
  | numberOutOfRange => "number out of range"
  | invalidUnicode => "invalid unicode code point"
  | controlCharacter => "control character (\\u0000-\\u001F) found while parsing a string"
  | keyMustBeString => "key must be a string"
  | loneSurrogate => "lone leading surrogate in hex escape"
  | trailingComma => "trailing comma"
  | trailingCharacters => "trailing characters"
  | endOfHexEscape => "unexpected end of hex escape"
  | recursionLimit => "recursion limit exceeded"
  | invalidType found wanted => s!"invalid type: {found.text}, expected {wanted}"
  | invalidValue found wanted => s!"invalid value: {found.text}, expected {wanted}"
  | invalidLength length wanted => s!"invalid length {length}, expected {wanted}"
  | missingField name => s!"missing field `{name}`"
  | duplicateField name => s!"duplicate field `{name}`"
  | unknownVariant name known => s!"unknown variant `{name}`, " ++ oneOf known
  | noAlternative type => s!"data did not match any variant of untagged enum {type}"
  | badHex fault => fault.message

/-- A refused document.  A fault in what a document says has no place until
the reader of the surrounding part gives it one. -/
structure Error where
  fault : Fault
  place : Option Place
  deriving DecidableEq

/-- The wording of an error with its place. -/
def Error.message (e : Error) : String :=
  match e.place with
  | none => e.fault.message
  | some p => s!"{e.fault.message} at line {p.line} column {p.column}"

end LedgerScript.Json
