import Callable.Double
import Callable.Scope
import Callable.Signature
import Callable.Target

/-! Values: data, closures and suspensions. A closure binds a target to a scope and a signature,
with the arguments bound so far and those carried for its result. A suspension is a target
waiting in a scope. Both have an identity, a number given out at construction and never again;
copies share it, and it alone decides equality of closures and of suspensions. -/

namespace Callable

structure Closure (V : Type) where
  identity : Nat
  target : Target
  scope : Option (Scope V)
  signature : Signature
  bound : List V
  /-- Arguments for the result of the body. -/
  carried : List V

structure Suspension (V : Type) where
  identity : Nat
  target : Target
  scope : Scope V

namespace Closure

variable {V : Type}

def name (f : Closure V) : String := f.target.name

def arity (f : Closure V) : Nat := f.signature.arity

def remainingArity (f : Closure V) : Nat := f.arity - f.bound.length

end Closure

inductive Value where
  | integer (n : Int64)
  | float (x : Double)
  | boolean (b : Bool)
  | string (s : String)
  | unit
  | array (items : List Value)
  | closure (f : Closure Value)
  | suspension (t : Suspension Value)

namespace Value

mutual

/-- Equality of data by structure, with that of numbers for floats, and of closures and
suspensions by identity. -/
def equals : Value → Value → Bool
  | .integer a, .integer b => a == b
  | .float a, .float b => a.equals b
  | .boolean a, .boolean b => a == b
  | .string a, .string b => a == b
  | .unit, .unit => true
  | .array a, .array b => itemsEqual a b
  | .closure a, .closure b => a.identity == b.identity
  | .suspension a, .suspension b => a.identity == b.identity
  | _, _ => false

def itemsEqual : List Value → List Value → Bool
  | [], [] => true
  | a :: as, b :: bs => a.equals b && itemsEqual as bs
  | _, _ => false

end

def typeName : Value → String
  | .integer _ => "Int"
  | .float _ => "Float"
  | .boolean _ => "Bool"
  | .string _ => "String"
  | .unit => "Unit"
  | .array _ => "Array"
  | .closure _ => "Function"
  | .suspension _ => "Thunk"

def closure? : Value → Option (Closure Value)
  | .closure f => some f
  | _ => none

def integer? : Value → Option Int64
  | .integer n => some n
  | _ => none

end Value

end Callable
