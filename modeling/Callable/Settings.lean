import Callable.Text.Fields

/-! Settings of a dispatcher. -/

namespace Callable

structure Settings where
  traceCalls : Bool := false
  loopLimit : Option UInt64 := none
  deriving DecidableEq

namespace Settings

/-- The limit that an iteration lies beyond, if any. -/
def exceeded? (s : Settings) (iteration : UInt64) : Option UInt64 :=
  s.loopLimit.filter (· < iteration)

def debug (s : Settings) : String :=
  Text.fields "RuntimeConfig"
    [("trace_calls", Text.truth s.traceCalls),
      ("call_loop_limit", Text.optional (s.loopLimit.map (toString ·.toNat)))]

end Settings

end Callable
