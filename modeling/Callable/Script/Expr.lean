import Callable.Program

/-! Scripts: a small language in which bodies are written and sessions are driven. An expression
gives a value or fails. Scopes and callers have expressions of their own, either of which may
give nothing. -/

namespace Callable.Script

inductive Arithmetic where
  | add
  | sub
  | mul
  deriving DecidableEq

inductive Aspect where
  | type
  | display
  | debug
  deriving DecidableEq

inductive Binding where
  | replace
  | extend
  deriving DecidableEq

inductive Manner where
  | apply
  | inFrame
  deriving DecidableEq

mutual

inductive Expr where
  | literal (v : Value)
  | array (items : List Expr)
  | copies (count : Nat) (item : Expr)
  | text (count : Nat) (piece : String)
  | nested (depth : Nat) (item : Expr)
  | register (name : String)
  | variable (name : String)
  | binding (name : String) (value body : Expr)
  | sequence (items : List Expr)
  | log (item : Expr)
  | arithmetic (op : Arithmetic) (left right : Expr)
  | less (left right : Expr)
  | equal (left right : Expr)
  | conditional (test consequent alternative : Expr)
  | element (items : Expr) (index : Nat)
  | tell (aspect : Aspect) (item : Expr)
  | fail (item : Expr)
  | raise (fault : Fault)
  | attempt (body : Expr) (name : String) (handler : Expr)
  | tailCall (f : Expr) (arguments : List Expr)
  | closure (definition : String) (scope : ScopeExpr) (bound carried : List Expr)
  | rebind (how : Binding) (f : Expr) (arguments : List Expr)
  | suspension (definition : String) (scope : ScopeExpr)
  | apply (manner : Manner) (f : Expr) (arguments : List Expr) (caller : CallerExpr)
      (state : Expr)
  /-- Runs the body without a dispatcher, in the scope of the closure. -/
  | invoke (f : Expr) (arguments : List Expr) (caller : CallerExpr) (state : Expr)
  | invokeIn (f : Expr) (arguments : List Expr) (caller : CallerExpr) (state : Expr)
      (scope : ScopeExpr)
  | force (t : Expr) (state : Expr)
  | resume (t : Expr) (state : Expr)
  | argument (index : Nat)
  | argumentOr (index : Nat) (default : Expr)
  | arguments
  | argumentCount
  | integerArgument (index : Nat)
  | state
  | depth
  | lookup (name : String)
  | caller
  | callerLookup (name : String)

inductive ScopeExpr where
  | none
  | root
  | here
  | register (name : String)
  | parent (scope : ScopeExpr)
  | extend (base : ScopeExpr) (bindings : List (String × Expr))
  /-- That many scopes, one inside the other, the `i`-th with a binding of `ci` to `i`. -/
  | chain (base : ScopeExpr) (length : Nat)

inductive CallerExpr where
  | none
  | detached
  | passed
  | new (scope : ScopeExpr) (name : Option String) (location : Option Location)

end

structure Definition where
  target : Target
  signature : Signature
  body : Expr

end Callable.Script
