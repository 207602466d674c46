import Callable.Fault

/-! Payloads: all that a body is given. The closure scope, the caller if it is passed, the ambient
state, and the positional arguments in the order of the signature. -/

namespace Callable

structure Caller where
  scope : Option (Scope Value)
  name : Option String
  location : Option Location

namespace Caller

def detached : Caller := ⟨none, none, none⟩

def isDetached (c : Caller) : Bool := c.scope.isNone && c.name.isNone

end Caller

structure Payload where
  scope : Option (Scope Value)
  caller : Option Caller
  state : Value
  arguments : List Value

namespace Payload

def ofClosure (f : Closure Value) (caller : Option Caller) (state : Value)
    (arguments : List Value) : Payload :=
  ⟨f.scope, caller, state, arguments⟩

def ofSuspension (t : Suspension Value) (state : Value) : Payload :=
  ⟨some t.scope, none, state, []⟩

def integer (p : Payload) (index : Nat) : Except Fault Int64 :=
  match p.arguments[index]? with
  | some (.integer n) => .ok n
  | some other => .error (.typeMismatch "Int" other.typeName)
  | none => .error (.failure ("missing positional argument " ++ toString index))

end Payload

end Callable
