import Callable.Journal

/-! What a run changes: the supply of identities, the tally of constructions and the journal.
Everything that is counted or has an identity is constructed here. -/

namespace Callable

structure Store where
  nextIdentity : Nat := 0
  tally : Tally := {}
  /-- The newest entry first. -/
  journal : List Entry := []

def Store.history (s : Store) : List Entry := s.journal.reverse

inductive Halt where
  | defect (d : Defect)
  | exhausted

abbrev Run := EStateM Halt Store

namespace Run

def record (e : Entry) : Run Unit :=
  modify fun s => { s with journal := e :: s.journal }

def emit (e : Event) : Run Unit := record (.event e)

def count (r : Resource) : Run Unit :=
  modify fun s => { s with tally := s.tally.count r }

def freshIdentity : Run Nat :=
  modifyGet fun s => (s.nextIdentity, { s with nextIdentity := s.nextIdentity + 1 })

def newClosure (target : Target) (scope : Option (Scope Value)) (signature : Signature)
    (bound carried : List Value) : Run (Closure Value) := do
  if signature.arity < bound.length then throw (.defect (.tooManyBound target.name))
  count .closure
  return ⟨← freshIdentity, target, scope, signature, bound, carried⟩

/-- A new closure like `f`, with these bound arguments in place of its own. -/
def rebind (f : Closure Value) (bound : List Value) : Run (Closure Value) :=
  newClosure f.target f.scope f.signature bound f.carried

def newSuspension (target : Target) (scope : Scope Value) : Run (Suspension Value) := do
  count .suspension
  return ⟨← freshIdentity, target, scope⟩

def newScope (parent : Option (Scope Value)) (bindings : List (String × Value)) :
    Run (Scope Value) := do
  count .scope
  return .within parent bindings

def newCaller (scope : Option (Scope Value)) (name : Option String)
    (location : Option Location) : Run Caller := do
  count .caller
  return ⟨scope, name, location⟩

end Run

end Callable
