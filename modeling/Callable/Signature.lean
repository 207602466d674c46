import Callable.Defect
import Callable.Text.Fields
import Callable.Text.Quoted

/-! Signatures: the declared parameters of a body in positional order, how its calls are driven,
and whether it may see its caller. A count of arguments saturates a signature when every
parameter from there on has a default. -/

namespace Callable

inductive Mode where
  | execute
  | suspend
  deriving DecidableEq

def Mode.name : Mode → String
  | .execute => "Execute"
  | .suspend => "Suspend"

structure Parameter where
  position : Nat
  name : String
  hasDefault : Bool
  mode : Mode
  deriving DecidableEq

namespace Parameter

def plain (position : Nat) (name : String) : Parameter := ⟨position, name, false, .execute⟩

def defaulted (position : Nat) (name : String) : Parameter := ⟨position, name, true, .execute⟩

def suspended (position : Nat) (name : String) : Parameter := ⟨position, name, false, .suspend⟩

def isSuspended (p : Parameter) : Bool := p.mode == .suspend

def debug (p : Parameter) : String :=
  Text.fields "ArgumentDefinition"
    [("position", toString p.position), ("name", Text.quote p.name),
      ("has_default", Text.truth p.hasDefault), ("execution_mode", p.mode.name)]

def InOrder (ps : List Parameter) : Prop := ps.map (·.position) = List.range ps.length

instance (ps : List Parameter) : Decidable (InOrder ps) :=
  inferInstanceAs (Decidable (_ = _))

end Parameter

/-- Who resolves the tail calls that a body requests. -/
inductive Strategy where
  | direct
  | loop
  deriving DecidableEq

def Strategy.name : Strategy → String
  | .direct => "Direct"
  | .loop => "CallLoop"

inductive FrameAccess where
  | withheld
  | full
  deriving DecidableEq

def FrameAccess.name : FrameAccess → String
  | .withheld => "None"
  | .full => "Full"

structure Signature where
  strategy : Strategy
  access : FrameAccess
  parameters : List Parameter
  ordered : Parameter.InOrder parameters := by decide
  deriving DecidableEq

namespace Signature

def build (strategy : Strategy) (access : FrameAccess) (parameters : List Parameter) :
    Except Defect Signature :=
  if ordered : Parameter.InOrder parameters then
    .ok { strategy, access, parameters, ordered }
  else .error .parametersOutOfOrder

def arity (s : Signature) : Nat := s.parameters.length

def passesCaller (s : Signature) : Bool := s.access == .full

def parameter? (s : Signature) (position : Nat) : Option Parameter := s.parameters[position]?

def positionOf? (s : Signature) (name : String) : Option Nat :=
  s.parameters.findIdx? (·.name == name)

/-- Whether that many leading arguments are enough to run the body. -/
def isSaturatedBy (s : Signature) (supplied : Nat) : Bool :=
  (s.parameters.drop supplied).all (·.hasDefault)

def debug (s : Signature) : String :=
  Text.fields "FunctionSchema"
    [("call_strategy", s.strategy.name), ("caller_frame_access", s.access.name),
      ("arguments", Text.bracketed (s.parameters.map (·.debug)))]

theorem isSaturatedBy_of_arity_le {s : Signature} {n : Nat} (h : s.arity ≤ n) :
    s.isSaturatedBy n = true := by
  simp [isSaturatedBy, List.drop_eq_nil_of_le h]

theorem lt_arity_of_not_isSaturatedBy {s : Signature} {n : Nat}
    (h : s.isSaturatedBy n = false) : n < s.arity :=
  Nat.lt_of_not_le fun le => by simp [isSaturatedBy_of_arity_le le] at h

end Signature

end Callable
