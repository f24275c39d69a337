import LedgerScript.Value.Basic
import Std.Data.ExtTreeMap

/-!
# Variables

The variables that a running program can reach: those of the innermost
function, scope by scope from the inside, and behind them those of the top
level.  A function never sees the variables of the function that called it.
-/

namespace LedgerScript

/-- What a variable holds. -/
structure Slot where
  value : Value
  constant : Bool

/-- Variables of one block. -/
abbrev Scope := Std.ExtTreeMap String Slot

/-- The scopes of one function, the innermost first. -/
abbrev Frame := List Scope

/-- All variables of a running program. -/
structure Variables where
  globals : Scope := ∅
  /-- The frames of the functions that run, the innermost first. -/
  frames : List Frame := []

namespace Frame

/-- The innermost variable of a name. -/
def find? (frame : Frame) (name : String) : Option Slot :=
  frame.findSome? fun scope => scope[name]?

/-- Gives the innermost variable of a name a new value. -/
def update? (frame : Frame) (name : String) (value : Value) : Option Frame :=
  match frame with
  | [] => none
  | scope :: outer =>
    match scope[name]? with
    | some slot => some (scope.insert name { slot with value := value } :: outer)
    | none => (update? outer name value).map (scope :: ·)

end Frame

namespace Variables

/-- The variable that a name means: one of the top frame, else one of `globals`. -/
def find? (v : Variables) (name : String) : Option Slot :=
  (v.frames.head?.bind fun frame => Frame.find? frame name).or v.globals[name]?

/-- Gives the variable that a name means a new value; a name without a
variable changes nothing. -/
def update (v : Variables) (name : String) (value : Value) : Variables :=
  let ofGlobals : Variables :=
    match v.globals[name]? with
    | some slot => { v with globals := v.globals.insert name { slot with value := value } }
    | none => v
  match v.frames with
  | [] => ofGlobals
  | frame :: below =>
    match Frame.update? frame name value with
    | some frame => { v with frames := frame :: below }
    | none => ofGlobals

/-- Declares a variable of the top level. -/
def declareGlobal (v : Variables) (name : String) (slot : Slot) : Variables :=
  { v with globals := v.globals.insert name slot }

/-- Declares a variable in the innermost scope; where no function runs, one of `globals`. -/
def declare (v : Variables) (name : String) (slot : Slot) : Variables :=
  match v.frames with
  | (scope :: outer) :: below => { v with frames := (scope.insert name slot :: outer) :: below }
  | _ => v.declareGlobal name slot

/-- Adds the parameters of a call to a scope, each with its argument, or with
null when the arguments have run out. -/
def bindArgs (scope : Scope) : (params : List String) → (args : List Value) → Scope
  | [], _ => scope
  | param :: rest, args =>
    bindArgs (scope.insert param ⟨args.headD .null, false⟩) rest args.tail

/-- Enters a function. -/
def pushFrame (v : Variables) (scope : Scope) : Variables :=
  { v with frames := [scope] :: v.frames }

/-- Leaves a function. -/
def popFrame (v : Variables) : Variables :=
  { v with frames := v.frames.tail }

/-- Enters a block. -/
def pushScope (v : Variables) : Variables :=
  match v.frames with
  | [] => v
  | frame :: below => { v with frames := (∅ :: frame) :: below }

/-- Leaves a block. -/
def popScope (v : Variables) : Variables :=
  match v.frames with
  | [] => v
  | frame :: below => { v with frames := frame.tail :: below }

end Variables

end LedgerScript
