import LedgerScript.Text.Hex
import LedgerScript.Text.Utf8

/-!
# Writing documents

A document is written in one line without blanks, or over several lines with
two blanks a level.  Of text, only quotes, backslashes and control characters
are escaped.
-/

namespace LedgerScript.Json

/-- A document to be written; an object keeps the order of its fields. -/
inductive Document where
  | null
  | bool (b : Bool)
  | int (n : Int)
  | str (s : String)
  | list (items : List Document)
  | object (fields : List (String × Document))
  deriving Inhabited

/-- The escape of a control character by its number. -/
def numbered (c : Char) : List Char :=
  ['\\', 'u', '0', '0', Text.Hex.digit (c.toNat / 16), Text.Hex.digit (c.toNat % 16)]

/-- How a character is written inside a string. -/
def written (c : Char) : List Char :=
  if c = '"' then ['\\', '"']
  else if c = '\\' then ['\\', '\\']
  else if c = '\x08' then ['\\', 'b']
  else if c = '\x0c' then ['\\', 'f']
  else if c = '\n' then ['\\', 'n']
  else if c = '\r' then ['\\', 'r']
  else if c = '\t' then ['\\', 't']
  else if c.toNat < 0x20 then numbered c
  else [c]

/-- A string between its quotes. -/
def string (s : String) : List Char :=
  '"' :: s.toList.flatMap written ++ ['"']

namespace Document

/-- The digits of an integer. -/
def digits (n : Int) : List Char :=
  (toString n).toList

/-- A literal of two words. -/
def truth (b : Bool) : List Char :=
  if b then ['t', 'r', 'u', 'e'] else ['f', 'a', 'l', 's', 'e']

mutual

/-- A document in one line. -/
def compact : Document → List Char
  | null => ['n', 'u', 'l', 'l']
  | bool b => truth b
  | int n => digits n
  | str s => string s
  | list items => '[' :: compactItems items ++ [']']
  | object fields => '\x7b' :: compactFields fields ++ ['\x7d']

/-- Items with commas between them. -/
def compactItems : List Document → List Char
  | [] => []
  | [item] => item.compact
  | item :: rest => item.compact ++ ',' :: compactItems rest

/-- Fields with commas between them. -/
def compactFields : List (String × Document) → List Char
  | [] => []
  | [(key, value)] => string key ++ ':' :: value.compact
  | (key, value) :: rest => string key ++ ':' :: value.compact ++ ',' :: compactFields rest

end

/-- A new line at a level. -/
def newline (level : Nat) : List Char :=
  '\n' :: List.replicate (2 * level) ' '

mutual

/-- A document over several lines, itself at `level`. -/
def pretty (level : Nat) : Document → List Char
  | list [] => ['[', ']']
  | list items =>
    '[' :: newline (level + 1) ++ prettyItems (level + 1) items ++ newline level ++ [']']
  | object [] => ['\x7b', '\x7d']
  | object fields =>
    '\x7b' :: newline (level + 1) ++ prettyFields (level + 1) fields ++ newline level
      ++ ['\x7d']
  | null => ['n', 'u', 'l', 'l']
  | bool b => truth b
  | int n => digits n
  | str s => string s

/-- Items, each on lines of its own. -/
def prettyItems (level : Nat) : List Document → List Char
  | [] => []
  | [item] => item.pretty level
  | item :: rest => item.pretty level ++ ',' :: newline level ++ prettyItems level rest

/-- Fields, each on lines of its own. -/
def prettyFields (level : Nat) : List (String × Document) → List Char
  | [] => []
  | [(key, value)] => string key ++ ':' :: ' ' :: value.pretty level
  | (key, value) :: rest =>
    string key ++ ':' :: ' ' :: value.pretty level ++ ',' :: newline level
      ++ prettyFields level rest

end

/-- The text of a document in one line. -/
def text (d : Document) : String :=
  String.ofList d.compact

/-- The text of a document over several lines. -/
def prettyText (d : Document) : String :=
  String.ofList (d.pretty 0)

end Document

/-! ## Documents as bytes -/

/-- What bytes are written to; it may refuse them for a reason. -/
structure Sink (σ : Type) where
  take : List UInt8 → EStateM String σ Unit

namespace Sink

/-- Memory, which takes all bytes. -/
def memory : Sink (List UInt8) where
  take bytes := fun taken => .ok () (taken ++ bytes)

/-- Writes characters. -/
def send {σ : Type} (sink : Sink σ) (cs : List Char) : EStateM String σ Unit :=
  sink.take (Text.utf8 (String.ofList cs))

end Sink

namespace Document

mutual

/-- Writes a document in one line, piece by piece. -/
def writeTo {σ : Type} (sink : Sink σ) : Document → EStateM String σ Unit
  | null => sink.send ['n', 'u', 'l', 'l']
  | bool b => sink.send (truth b)
  | int n => sink.send (digits n)
  | str s => sink.send (string s)
  | list items => do
    sink.send ['[']
    writeItemsTo sink items
    sink.send [']']
  | object fields => do
    sink.send ['\x7b']
    writeFieldsTo sink fields
    sink.send ['\x7d']

/-- Writes items with commas between them. -/
def writeItemsTo {σ : Type} (sink : Sink σ) : List Document → EStateM String σ Unit
  | [] => pure ()
  | [item] => writeTo sink item
  | item :: rest => do
    writeTo sink item
    sink.send [',']
    writeItemsTo sink rest

/-- Writes fields with commas between them. -/
def writeFieldsTo {σ : Type} (sink : Sink σ) :
    List (String × Document) → EStateM String σ Unit
  | [] => pure ()
  | [(key, value)] => do
    sink.send (string key)
    sink.send [':']
    writeTo sink value
  | (key, value) :: rest => do
    sink.send (string key)
    sink.send [':']
    writeTo sink value
    sink.send [',']
    writeFieldsTo sink rest

end

/-- The bytes of a document in one line, unless they cannot be written. -/
def toBytes (d : Document) : Except String (List UInt8) :=
  match d.writeTo .memory [] with
  | .ok _ bytes => .ok bytes
  | .error reason _ => .error reason

end Document

end LedgerScript.Json
