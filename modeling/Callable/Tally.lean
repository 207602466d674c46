import Callable.Text.Fields

/-! Tallies: how many closures, suspensions, scopes and callers were constructed. Each count is
a 64-bit number that wraps around. -/

namespace Callable

inductive Resource where
  | closure
  | suspension
  | scope
  | caller
  deriving DecidableEq

structure Tally where
  closures : UInt64 := 0
  suspensions : UInt64 := 0
  scopes : UInt64 := 0
  callers : UInt64 := 0
  deriving DecidableEq

namespace Tally

def count (t : Tally) : Resource → Tally
  | .closure => { t with closures := t.closures + 1 }
  | .suspension => { t with suspensions := t.suspensions + 1 }
  | .scope => { t with scopes := t.scopes + 1 }
  | .caller => { t with callers := t.callers + 1 }

def since (now earlier : Tally) : Tally where
  closures := now.closures - earlier.closures
  suspensions := now.suspensions - earlier.suspensions
  scopes := now.scopes - earlier.scopes
  callers := now.callers - earlier.callers

def debug (t : Tally) : String :=
  Text.fields "LeakStats"
    [("functions", toString t.closures.toNat), ("thunks", toString t.suspensions.toNat),
      ("scopes", toString t.scopes.toNat), ("caller_infos", toString t.callers.toNat)]

end Tally

end Callable
