import LedgerScript.Contract.Basic
import LedgerScript.Contract.Context
import LedgerScript.Contract.Error
import LedgerScript.Contract.Id
import LedgerScript.Contract.ScriptFault
import LedgerScript.Decimal.Shortest
import LedgerScript.Digest.Sha256
import LedgerScript.Json.Decode
import LedgerScript.Json.Document
import LedgerScript.Json.Error
import LedgerScript.Json.Reader
import LedgerScript.Json.Skip
import LedgerScript.Ledger.Basic
import LedgerScript.Ledger.Cache
import LedgerScript.Ledger.Call
import LedgerScript.Ledger.Config
import LedgerScript.Ledger.Phase
import LedgerScript.Ledger.Statistics
import LedgerScript.Machine.Builtin
import LedgerScript.Machine.Evaluator
import LedgerScript.Machine.HostFunction
import LedgerScript.Machine.Operator
import LedgerScript.Machine.Path
import LedgerScript.Machine.State
import LedgerScript.Machine.Variables
import LedgerScript.Metering.Budget
import LedgerScript.Metering.Meter
import LedgerScript.Proofs.Json.Containers
import LedgerScript.Proofs.Json.Pretty
import LedgerScript.Proofs.Json.Taking
import LedgerScript.Proofs.Ledger.Answer
import LedgerScript.Proofs.Ledger.Atomicity
import LedgerScript.Proofs.Ledger.Budgets
import LedgerScript.Proofs.Ledger.Caching
import LedgerScript.Proofs.Ledger.Coherence
import LedgerScript.Proofs.Ledger.Commutation
import LedgerScript.Proofs.Ledger.Contexts
import LedgerScript.Proofs.Ledger.Defences
import LedgerScript.Proofs.Ledger.DenyList
import LedgerScript.Proofs.Ledger.History
import LedgerScript.Proofs.Ledger.Lifecycle
import LedgerScript.Proofs.Ledger.Loading
import LedgerScript.Proofs.Ledger.Recency
import LedgerScript.Proofs.Ledger.Soundness
import LedgerScript.Proofs.Ledger.WriteIsolation
import LedgerScript.Proofs.Machine.Arithmetic
import LedgerScript.Proofs.Machine.Balance
import LedgerScript.Proofs.Machine.Bounds
import LedgerScript.Proofs.Machine.CallRefinement
import LedgerScript.Proofs.Machine.CallStack
import LedgerScript.Proofs.Machine.CallTree
import LedgerScript.Proofs.Machine.Callless
import LedgerScript.Proofs.Machine.Ceilings
import LedgerScript.Proofs.Machine.ChainReading
import LedgerScript.Proofs.Machine.Changes
import LedgerScript.Proofs.Machine.Closure
import LedgerScript.Proofs.Machine.CompoundAssignment
import LedgerScript.Proofs.Machine.Conduct
import LedgerScript.Proofs.Machine.Constants
import LedgerScript.Proofs.Machine.ContextStack
import LedgerScript.Proofs.Machine.ContractDepth
import LedgerScript.Proofs.Machine.Coupling
import LedgerScript.Proofs.Machine.Dispatch
import LedgerScript.Proofs.Machine.Guards
import LedgerScript.Proofs.Machine.Held
import LedgerScript.Proofs.Machine.Integrity
import LedgerScript.Proofs.Machine.Locals
import LedgerScript.Proofs.Machine.LoopExits
import LedgerScript.Proofs.Machine.MemoryCeiling
import LedgerScript.Proofs.Machine.NestedCall
import LedgerScript.Proofs.Machine.Noninterference
import LedgerScript.Proofs.Machine.Noting
import LedgerScript.Proofs.Machine.Outside
import LedgerScript.Proofs.Machine.Pace
import LedgerScript.Proofs.Machine.Parametricity
import LedgerScript.Proofs.Machine.Parts
import LedgerScript.Proofs.Machine.PathLaws
import LedgerScript.Proofs.Machine.StateFunctions
import LedgerScript.Proofs.Machine.Termination
import LedgerScript.Proofs.Machine.Transparency
import LedgerScript.Proofs.Machine.Unmetered
import LedgerScript.Proofs.Script.Acts
import LedgerScript.Proofs.Script.DepthLimit
import LedgerScript.Proofs.Script.Expressions
import LedgerScript.Proofs.Script.Grammar
import LedgerScript.Proofs.Script.Layout
import LedgerScript.Proofs.Script.Leads
import LedgerScript.Proofs.Script.Nesting
import LedgerScript.Proofs.Script.Parentheses
import LedgerScript.Proofs.Script.Pieces
import LedgerScript.Proofs.Script.Places
import LedgerScript.Proofs.Script.Reading
import LedgerScript.Proofs.Script.Rendering
import LedgerScript.Proofs.Script.RoundTrip
import LedgerScript.Proofs.Script.Spelling
import LedgerScript.Proofs.Script.Statements
import LedgerScript.Proofs.Script.Words
import LedgerScript.Proofs.Sequence
import LedgerScript.Proofs.State.Commitment
import LedgerScript.Proofs.State.Legal
import LedgerScript.Proofs.State.PrivateCopy
import LedgerScript.Proofs.State.Reading
import LedgerScript.Proofs.State.Refusals
import LedgerScript.Proofs.State.Serializability
import LedgerScript.Proofs.State.Spellings
import LedgerScript.Proofs.State.WriteLimit
import LedgerScript.Proofs.Text.Encoded
import LedgerScript.Proofs.Value.Codec
import LedgerScript.Proofs.Value.Parts
import LedgerScript.Proofs.Value.Places
import LedgerScript.Proofs.Value.RoundTrip
import LedgerScript.Proofs.Value.Sorted
import LedgerScript.Proofs.Wire.CodeRecord
import LedgerScript.Proofs.Wire.Config
import LedgerScript.Script.FreeNames
import LedgerScript.Script.Lexer
import LedgerScript.Script.ParseError
import LedgerScript.Script.Parser
import LedgerScript.Script.Program
import LedgerScript.Script.Token
import LedgerScript.State.Access
import LedgerScript.State.Key
import LedgerScript.State.Store
import LedgerScript.State.View
import LedgerScript.Text.Character
import LedgerScript.Text.Hex
import LedgerScript.Text.Integer
import LedgerScript.Text.Utf8
import LedgerScript.Value.Basic
import LedgerScript.Value.Entries
import LedgerScript.Value.Json
import LedgerScript.Wire.Code
import LedgerScript.Wire.Config
import LedgerScript.Wire.Limits
import LedgerScript.Wire.Names
import LedgerScript.Wire.Request
import LedgerScript.Wire.State
