import Callable.Json.Number
import Callable.Json.Text

/-! What a reader finds where it expects something else. -/

namespace Callable.Json.Reader

def null : Reader Unit := word ['n', 'u', 'l', 'l']

def truth (b : Bool) : Reader Bool := do
  word (Text.truth b).toList
  return b

def foundNumber : Reader Found := do
  match ← number with
  | .integer n => return .integer n
  | .floating x => return .floating x

/-- Names what stands ahead. A scalar is read whole, a container not at all. -/
def found : Reader Found := do
  match ← ahead with
  | 'n' =>
    null
    return .null
  | 't' => return .boolean (← truth true)
  | 'f' => return .boolean (← truth false)
  | '"' => return .string (← text)
  | '[' => return .sequence
  | '\x7b' => return .map
  | c => if c == '-' || c.isDigit then foundNumber else throw .malformed

end Callable.Json.Reader
