import Callable.Payload
import Callable.Tally

/-! The journal of a run: applications, invocations of bodies, events for an observer and notes
by bodies, in the order in which they happen. -/

namespace Callable

structure Call where
  closure : Closure Value
  caller : Option Caller
  state : Value
  arguments : List Value

namespace Call

def supplied (c : Call) : List Value := c.closure.bound ++ c.arguments

def isSaturated (c : Call) : Bool := c.closure.signature.isSaturatedBy c.supplied.length

def positional (c : Call) : List Value := c.supplied.take c.closure.arity

/-- What is left for the result of the body: the carried arguments, then the excess. -/
def surplus (c : Call) : List Value := c.closure.carried ++ c.supplied.drop c.closure.arity

end Call

inductive Callee where
  | application (call : Call)
  | suspension (t : Suspension Value)
  | direct (target : Target)

def Callee.target : Callee → Target
  | .application call => call.closure.target
  | .suspension t => t.target
  | .direct target => target

inductive Event where
  | apply (name : String) (supplied arity : Nat)
  | partialApplication (name : String) (applied arity : Nat)
  | detachedCaller (name : String)
  | surplus (name : String) (pending : Nat)
  | callLoop (name : String)
  | foreignExecute (name : String) (arguments : Nat)
  deriving DecidableEq

namespace Event

def isTrace : Event → Bool
  | .apply .. | .foreignExecute .. => true
  | _ => false

def level (e : Event) : String := if e.isTrace then "TRACE" else "DEBUG"

def message : Event → String
  | .apply .. => "apply"
  | .partialApplication .. => "partial application"
  | .detachedCaller .. => "passing detached caller info"
  | .surplus .. => "applying oversaturated arguments to result"
  | .callLoop .. => "entering call loop"
  | .foreignExecute .. => "foreign execute"

def function : Event → String
  | .apply name .. | .partialApplication name .. | .detachedCaller name | .surplus name _
  | .callLoop name | .foreignExecute name _ => name

def counts : Event → List (String × Nat)
  | .apply _ supplied arity => [("supplied", supplied), ("arity", arity)]
  | .partialApplication _ applied arity => [("applied", applied), ("arity", arity)]
  | .detachedCaller _ => []
  | .surplus _ pending => [("pending", pending)]
  | .callLoop _ => []
  | .foreignExecute _ arguments => [("args", arguments)]

end Event

inductive Entry where
  | dispatched (call : Call)
  | invoked (callee : Callee) (payload : Payload)
  | event (e : Event)
  | note (text : String)
  | created (r : Resource)

end Callable
