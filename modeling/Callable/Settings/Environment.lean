import Callable.Settings
import Callable.Text.Blank
import Callable.Text.Quoted

/-! Settings from two environment variables. Blanks around a value do not count, and a variable
that is not set leaves the default. -/

namespace Callable.Settings

def traceCallsVariable : String := "CALLCORE_TRACE_CALLS"

def loopLimitVariable : String := "CALLCORE_CALL_LOOP_LIMIT"

structure InvalidVariable where
  name : String
  value : String
  deriving DecidableEq

def InvalidVariable.message (v : InvalidVariable) : String :=
  "invalid value for " ++ v.name ++ ": " ++ Text.quote v.value

def truth? (cs : List Char) : Option Bool :=
  if cs ∈ ["1", "true", "yes"].map String.toList then some true
  else if cs ∈ ["0", "false", "no", ""].map String.toList then some false
  else none

def decimal? (cs : List Char) : Option Nat :=
  if cs ≠ [] ∧ cs.all Char.isDigit then
    some (cs.foldl (fun n c => n * 10 + (c.toNat - 48)) 0)
  else none

/-- A 64-bit number in decimal, after at most one plus sign. -/
def limit? (cs : List Char) : Option UInt64 := do
  let n ← decimal? (match cs with
    | '+' :: rest => rest
    | _ => cs)
  if n < UInt64.size then some n.toUInt64 else none

def ofVariable {α : Type} (default : α) (read : List Char → Option α) (name : String) :
    Option String → Except InvalidVariable α
  | none => .ok default
  | some value =>
    match read (Text.trim value.toList) with
    | some a => .ok a
    | none => .error ⟨name, value⟩

def ofEnvironment (lookup : String → Option String) : Except InvalidVariable Settings := do
  let traceCalls ← ofVariable false truth? traceCallsVariable (lookup traceCallsVariable)
  let loopLimit ← ofVariable none (some <$> limit? ·) loopLimitVariable
    (lookup loopLimitVariable)
  return { traceCalls, loopLimit }

end Callable.Settings
