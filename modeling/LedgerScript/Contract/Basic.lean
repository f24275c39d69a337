import LedgerScript.Contract.Context
import LedgerScript.Contract.Id
import LedgerScript.Script.FreeNames
import LedgerScript.Script.Parser

/-!
# Contracts

A compiled script is a program with what can be said of it without running it: the
entry points that it declares and the names that it uses without declaring them.  A
contract is a compiled script under the identity of its source.
-/

namespace LedgerScript

/-! ## Compiled scripts -/

namespace Script

/-- The name of the language, which is stored with deployed code. -/
def languageName : String := "miniscript"

/-- The nesting that a contract's source may have. -/
def maxParseDepth : Nat := 64

/-- A compiled script is its program; the rest is derived from it. -/
structure Compiled where
  program : Program

namespace Compiled

/-- The program declares a function of the entry point's name. -/
def declares (c : Compiled) (entry : EntryPoint) : Bool :=
  c.program.functions.contains entry.name

/-- The declared entry points. -/
def entryPoints (c : Compiled) : List EntryPoint :=
  EntryPoint.all.filter c.declares

/-- The names that the program takes from its surroundings, its `freeNames`. -/
def globals (c : Compiled) : List String :=
  c.program.freeNames

end Compiled

/-- Compiles a source whose nesting is at most `maxDepth`. -/
def compile (source : String) (maxDepth : Nat := maxParseDepth) :
    Except ParseError Compiled :=
  Compiled.mk <$> parse source maxDepth

end Script

/-! ## Contracts -/

/-- A contract that can be run. -/
structure Contract where
  id : ContractId
  compiled : Script.Compiled
  /-- The length of the source in bytes. -/
  sourceLength : Nat

namespace Contract

/-- The program of a contract. -/
def program (c : Contract) : Script.Program := c.compiled.program

/-- The contract has an entry point. -/
def declares (c : Contract) (entry : EntryPoint) : Bool :=
  c.compiled.declares entry

/-- Compiles a source. -/
def ofSource (source : String) : Except Script.ParseError Contract := do
  let bytes := Text.utf8 source
  return ⟨ContractId.ofSource bytes, ← Script.compile source, bytes.length⟩

end Contract

end LedgerScript
