import Callable.Value.Text

/-! Faults: the ways in which an application ends without a value. A tail call is among them: it
is a request that travels like a failure to the nearest call loop, which performs the call in
place of the frame that asked for it. Host faults are what a foreign host is told. -/

namespace Callable

/-- A call asked for from tail position. -/
structure TailCall where
  closure : Closure Value
  arguments : List Value

inductive Fault where
  | failure (message : String)
  | notAFunction (type : String)
  | typeMismatch (expected got : String)
  | loopLimit (limit : UInt64)
  | tailCall (request : TailCall)

namespace Fault

def message : Fault → String
  | .failure message => message
  | .notAFunction type => "not a function: " ++ type
  | .typeMismatch expected got => "expected " ++ expected ++ ", got " ++ got
  | .loopLimit limit => "call loop exceeded " ++ toString limit.toNat ++ " iterations"
  | .tailCall request => "unresolved tail call to " ++ request.closure.name

def isTailCall : Fault → Bool
  | .tailCall _ => true
  | _ => false

def kind : Fault → String
  | .failure _ => "Failure"
  | .notAFunction _ => "NotAFunction"
  | .typeMismatch _ _ => "TypeMismatch"
  | .loopLimit _ => "CallLoopLimit"
  | .tailCall _ => "TailCall"

def debug : Fault → String
  | .failure message => Text.tagged "Failure" (Text.quote message)
  | .notAFunction type => Text.tagged "NotAFunction" (Text.quote type)
  | .typeMismatch expected got =>
    Text.fields "TypeMismatch" [("expected", Text.quote expected), ("got", Text.quote got)]
  | .loopLimit limit => Text.tagged "CallLoopLimit" (toString limit.toNat)
  | .tailCall request =>
    Text.tagged "TailCall" (Text.fields "TailCall"
      [("function", request.closure.debug),
        ("arguments", Text.bracketed (request.arguments.map (·.debug)))])

end Fault

inductive HostFault where
  | unknownIdentifier (name : String)
  | arityMismatch (expected got : Nat)
  | unsupportedType (type : String)
  | callee (fault : Fault)

namespace HostFault

def message : HostFault → String
  | .unknownIdentifier name => "unknown identifier: " ++ name
  | .arityMismatch expected got =>
    "wrong number of arguments: want=" ++ toString expected ++ ", got=" ++ toString got
  | .unsupportedType type => "unsupported type: " ++ type
  | .callee fault => fault.message

def kind : HostFault → String
  | .unknownIdentifier _ => "UnknownIdentifier"
  | .arityMismatch _ _ => "ArityMismatch"
  | .unsupportedType _ => "UnsupportedType"
  | .callee _ => "Callee"

def debug : HostFault → String
  | .unknownIdentifier name => Text.tagged "UnknownIdentifier" (Text.quote name)
  | .arityMismatch expected got =>
    Text.fields "ArityMismatch" [("expected", toString expected), ("got", toString got)]
  | .unsupportedType type => Text.tagged "UnsupportedType" (Text.quote type)
  | .callee fault => Text.tagged "Callee" fault.debug

end HostFault

abbrev Reply := Except Fault Value

end Callable
