/-! Defects: what a host must not ask for. A defect ends the run that meets it; it is not a
failure that a body could return or a handler could catch. -/

namespace Callable

inductive Defect where
  | parametersOutOfOrder
  | tooManyBound (name : String)
  deriving DecidableEq

def Defect.message : Defect → String
  | .parametersOutOfOrder => "argument definitions must be in positional order"
  | .tooManyBound name => "pre-applied arguments exceed the arity of " ++ name

end Callable
