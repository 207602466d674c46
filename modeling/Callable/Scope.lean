/-! Scopes: immutable frames of bindings, each inside its parent. Look-up goes from the last
binding of the innermost frame outwards. -/

namespace Callable

inductive Scope (V : Type) where
  | outermost (bindings : List (String × V))
  | inner (parent : Scope V) (bindings : List (String × V))

namespace Scope

variable {V : Type}

def root : Scope V := .outermost []

def within (parent : Option (Scope V)) (bindings : List (String × V)) : Scope V :=
  match parent with
  | none => .outermost bindings
  | some parent => .inner parent bindings

def parent? : Scope V → Option (Scope V)
  | .outermost _ => none
  | .inner parent _ => some parent

def depth : Scope V → Nat
  | .outermost _ => 0
  | .inner parent _ => parent.depth + 1

def lastBinding? (name : String) (bindings : List (String × V)) : Option V :=
  (bindings.reverse.find? (·.1 == name)).map (·.2)

def lookup? (name : String) : Scope V → Option V
  | .outermost bindings => lastBinding? name bindings
  | .inner parent bindings =>
    match lastBinding? name bindings with
    | some value => some value
    | none => parent.lookup? name

/-- All bindings of the scope and its ancestors, the outermost first. -/
def flat : Scope V → List (String × V)
  | .outermost bindings => bindings
  | .inner parent bindings => parent.flat ++ bindings

end Scope

end Callable
