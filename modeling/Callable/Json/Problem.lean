import Callable.Decimal.Layout
import Callable.Text.Fields
import Callable.Text.Quoted

/-! Why a text is not the document that a reader expects: it ends too early, it is malformed, or
it is well formed as far as it was read but does not fit. Reading goes from left to right and
stops at the first problem. -/

namespace Callable.Json

inductive Found where
  | null
  | boolean (b : Bool)
  | integer (n : Int)
  | floating (x : Double)
  | string (s : String)
  | sequence
  | map

namespace Found

def text : Found → String
  | .null => "null"
  | .boolean b => "boolean `" ++ Text.truth b ++ "`"
  | .integer n => "integer `" ++ toString n ++ "`"
  | .floating x => "floating point `" ++ Decimal.Layout.signed.text x ++ "`"
  | .string s => "string " ++ Text.quote s
  | .sequence => "sequence"
  | .map => "map"

end Found

inductive Problem where
  | ended
  | malformed
  | unknownField (key : String) (known : List String)
  | duplicateField (key : String)
  | wrongType (found : Found) (expected : String)
  | wrongValue (found : Found) (expected : String)

namespace Problem

def category : Problem → String
  | .ended => "Eof"
  | .malformed => "Syntax"
  | _ => "Data"

def ticked (s : String) : String := "`" ++ s ++ "`"

def detail? : Problem → Option String
  | .ended | .malformed => none
  | .unknownField key known =>
    some ("unknown field " ++ ticked key ++ ", expected " ++
      String.intercalate " or " (known.map ticked))
  | .duplicateField key => some ("duplicate field " ++ ticked key)
  | .wrongType found expected => some ("invalid type: " ++ found.text ++ ", expected " ++ expected)
  | .wrongValue found expected =>
    some ("invalid value: " ++ found.text ++ ", expected " ++ expected)

end Problem

end Callable.Json
