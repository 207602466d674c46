import Callable.Journal

/-! Rendered values: what a session shows of values. Closures and suspensions are shown under
numbers, given out from zero in the order in which they are first shown. -/

namespace Callable.Session

inductive Rendered where
  | integer (n : Int64)
  | float (bits : Option UInt64)
  | boolean (b : Bool)
  | string (s : String)
  | unit
  | array (items : List Rendered)
  | closure (number : Nat) (name : String) (arity bound carried : Nat)
  | suspension (number : Nat) (name : String)

abbrev Shown := Array Nat

abbrev Render := StateM Shown

def number (identity : Nat) : Render Nat := do
  let shown ← get
  match shown.findIdx? (· == identity) with
  | some n => return n
  | none =>
    set (shown.push identity)
    return shown.size

mutual

def render : Value → Render Rendered
  | .integer n => pure (.integer n)
  | .float x => pure (.float (if x.isNaN then none else some x.bits))
  | .boolean b => pure (.boolean b)
  | .string s => pure (.string s)
  | .unit => pure .unit
  | .array items => return .array (← renderAll items)
  | .closure f =>
    return .closure (← number f.identity) f.name f.arity f.bound.length f.carried.length
  | .suspension t => return .suspension (← number t.identity) t.target.name

def renderAll : List Value → Render (List Rendered)
  | [] => pure []
  | v :: vs => do
    let r ← render v
    let rs ← renderAll vs
    return r :: rs

end

structure Description where
  value : Rendered
  type : String
  display : String
  debug : String
  integer : Option Int64
  isClosure : Bool

def describe (v : Value) : Render Description := do
  return ⟨← render v, v.typeName, v.display, v.debug, v.integer?, v.closure?.isSome⟩

structure CallerLine where
  detached : Bool
  name : Option String
  location : Option String
  depth : Option Nat

def CallerLine.of (c : Caller) : CallerLine :=
  ⟨c.isDetached, c.name, c.location.map (·.text), c.scope.map (·.depth)⟩

inductive Line where
  | invoked (name : String) (arguments : List Rendered) (state : Rendered)
      (depth : Option Nat) (caller : Option CallerLine)
  | note (text : String)
  | event (e : Event)

/-- The line of an entry, if it is one that a log shows. Events are shown where traced. -/
def line? (traced : Bool) : Entry → Option (Render Line)
  | .invoked callee p => some do
    let arguments ← renderAll p.arguments
    let state ← render p.state
    return .invoked callee.target.name arguments state (p.scope.map (·.depth))
      (p.caller.map .of)
  | .note text => some (pure (.note text))
  | .event e => if traced then some (pure (.event e)) else none
  | .dispatched _ | .created _ => none

def capacity : Nat := 60

structure Log where
  lines : List Line
  dropped : Nat

def renderLog (traced : Bool) (history : List Entry) : Render Log := do
  let lines := history.filterMap (line? traced)
  return ⟨← (lines.take capacity).mapM id, lines.length - capacity⟩

inductive Report where
  | fault (kind message : String)
  | tailCall (message : String) (closure : Rendered) (arguments : List Rendered)
  | callee (message : String) (inner : Report)
  | defect (d : Defect)
  | exhausted

def reportFault : Fault → Render Report
  | .tailCall request => do
    let closure ← render (.closure request.closure)
    let arguments ← renderAll request.arguments
    return .tailCall (Fault.tailCall request).message closure arguments
  | fault => pure (.fault fault.kind fault.message)

def reportHostFault : HostFault → Render Report
  | .callee fault => return .callee fault.message (← reportFault fault)
  | fault => pure (.fault fault.kind fault.message)

end Callable.Session
