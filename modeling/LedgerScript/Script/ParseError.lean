import LedgerScript.Script.Token

/-!
# Why a source is no program

Each way in which a source can break the grammar, with the place where the
reader noticed it.
-/

namespace LedgerScript.Script

/-- What the grammar wants next. -/
inductive Expectation where
  | symbol (s : Symbol)
  | commaOrClose
  | commaOrBrace
  | functionName
  | parameterName
  | bindingName
  | propertyName
  | expression
  deriving DecidableEq

/-- The spelling of a symbol where the grammar wants exactly that one. -/
def Symbol.wanted : Symbol → String
  | leftParen => "`(`"
  | rightParen => "`)`"
  | leftBrace => "`\x7b`"
  | rightBrace => "`\x7d`"
  | leftBracket => "`[`"
  | rightBracket => "`]`"
  | colon => "`:`"
  | s => s.label

/-- The wording of an expectation. -/
def Expectation.text : Expectation → String
  | symbol s => s.wanted
  | commaOrClose => "`,` or closing delimiter"
  | commaOrBrace => "`,` or `\x7d`"
  | functionName => "function name"
  | parameterName => "parameter name"
  | bindingName => "binding name"
  | propertyName => "property name"
  | expression => "expression"

/-- How a token is shown where another one is wanted. -/
def Token.shown : Token → String
  | ident name => s!"identifier `{name}`"
  | int n => s!"integer `{n}`"
  | str _ => "string literal"
  | keyword k => s!"keyword {k.label}"
  | symbol s => s.label

/-- Why a source is refused. -/
inductive ParseFault where
  | unterminatedComment
  | unterminatedString
  | unknownEscape (c : Char)
  | unexpectedCharacter (c : Char)
  | floatingPoint
  | invalidNumber (digits : String) (c : Char)
  | integerOutOfRange (digits : String)
  /-- Something else stands where the grammar wants `what`; `none` is the end
  of the source. -/
  | expected (what : Expectation) (found : Option Token)
  | nestingTooDeep (limit : Nat)
  | duplicateTopLevel (name : String)
  | notTopLevel
  | duplicateParameter (name : String)
  | constWithoutValue
  | breakOutsideLoop
  | continueOutsideLoop
  | nestedFunction
  | invalidTarget
  | notCallable
  | expectedMapKey
  deriving DecidableEq

/-- The wording of a fault. -/
def ParseFault.message : ParseFault → String
  | unterminatedComment => "unterminated block comment"
  | unterminatedString => "unterminated string literal"
  | unknownEscape c => "unknown escape `\\" ++ c.toString ++ "`"
  | unexpectedCharacter c => s!"unexpected character `{c}`"
  | floatingPoint => "floating point literals are not supported"
  | invalidNumber digits c => s!"invalid numeric literal `{digits}{c}`"
  | integerOutOfRange digits => s!"integer literal `{digits}` out of range"
  | expected what found =>
    "expected " ++ what.text ++ ", found " ++ (found.map Token.shown).getD "end of input"
  | nestingTooDeep limit => s!"nesting too deep, limit is {limit}"
  | duplicateTopLevel name => s!"duplicate top-level name `{name}`"
  | notTopLevel =>
    "only function declarations and let/const bindings are allowed at top level"
  | duplicateParameter name => s!"duplicate parameter `{name}`"
  | constWithoutValue => "const binding requires an initializer"
  | breakOutsideLoop => "`break` outside of a loop"
  | continueOutsideLoop => "`continue` outside of a loop"
  | nestedFunction => "nested function declarations are not supported"
  | invalidTarget => "invalid assignment target"
  | notCallable => "only named functions can be called"
  | expectedMapKey => "expected map key"

/-- A refused source: the fault and its place. -/
structure ParseError where
  fault : ParseFault
  position : Position
  deriving DecidableEq

end LedgerScript.Script
