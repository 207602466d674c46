import Callable.Machine

/-! The face of a closure towards a foreign host. A host may execute a closure and ask whether
another value is the same closure, through the one member `equals`, and nothing else. -/

namespace Callable

structure Host where
  dispatcher : Dispatcher
  defaultState : Value := .unit

namespace Closure

def isExecutable (_ : Closure Value) : Bool := true

def hasMembers (_ : Closure Value) : Bool := true

def members (_ : Closure Value) (_includeInternal : Bool) : Value := .array [.string "equals"]

def isInvocable (_ : Closure Value) (member : String) : Bool := member == "equals"

/-- The one argument of a member; a suspension may not cross over to the host. -/
def singleArgument : List Value → Except HostFault Value
  | [.suspension _] => .error (.unsupportedType "Thunk")
  | [v] => .ok v
  | arguments => .error (.arityMismatch 1 arguments.length)

def isSame (f : Closure Value) : Value → Bool
  | .closure g => f.identity == g.identity
  | _ => false

def invokeMember (f : Closure Value) (member : String) (arguments : List Value) :
    Except HostFault Value := do
  if f.isInvocable member then
    let that ← singleArgument arguments
    return .boolean (f.isSame that)
  else throw (.unknownIdentifier member)

/-- Executes the closure for a host, from outside any frame. -/
def execute (eval : Evaluator) (rounds : Nat) (host : Host) (f : Closure Value)
    (arguments : List Value) : Run (Except HostFault Value) := do
  Run.emit (.foreignExecute f.name arguments.length)
  match ← Machine.dispatcherApply eval rounds host.dispatcher
      ⟨f, none, host.defaultState, arguments⟩ with
  | .ok v => return .ok v
  | .error fault => return .error (.callee fault)

end Closure

end Callable
