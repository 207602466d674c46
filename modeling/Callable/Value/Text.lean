import Callable.Decimal.Layout
import Callable.Value

/-! The two texts of a value. The display form is for reading and quotes strings without
escaping them; the debug form names the kind of every value and escapes strings. -/

namespace Callable

variable {V : Type}

def Closure.debug (f : Closure V) : String :=
  Text.fields "Function"
    [("name", Text.quote f.name), ("arity", toString f.arity),
      ("pre_applied", toString f.bound.length), ("oversaturated", toString f.carried.length)]

def Suspension.debug (t : Suspension V) : String := Text.tagged "Thunk" t.target.name

namespace Value

mutual

def display : Value → String
  | .integer n => toString n.toInt
  | .float x => Decimal.Layout.plain.text x
  | .boolean b => Text.truth b
  | .string s => "\"" ++ s ++ "\""
  | .unit => "()"
  | .array items => Text.bracketed (displays items)
  | .closure f => "<function " ++ f.name ++ ">"
  | .suspension _ => "<thunk>"

def displays : List Value → List String
  | [] => []
  | v :: vs => v.display :: displays vs

end

mutual

def debug : Value → String
  | .integer n => Text.tagged "Integer" (toString n.toInt)
  | .float x => Text.tagged "Float" (Decimal.Layout.pointed.text x)
  | .boolean b => Text.tagged "Boolean" (Text.truth b)
  | .string s => Text.tagged "String" (Text.quote s)
  | .unit => "Unit"
  | .array items => Text.tagged "Array" (Text.bracketed (debugs items))
  | .closure f => Text.tagged "Function" f.debug
  | .suspension t => Text.tagged "Thunk" t.debug

def debugs : List Value → List String
  | [] => []
  | v :: vs => v.debug :: debugs vs

end

end Value

end Callable
