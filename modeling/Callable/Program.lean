import Callable.Settings
import Callable.Journal

/-! Programs: what a body does, as data. A program ends with a result or asks for something and
goes on with the answer, so that a body may apply closures, through whichever dispatcher it
likes, without the rules of application being known here. -/

namespace Callable

/-- How closures are applied: by currying, or by a host in a way of its own. -/
inductive Dispatcher where
  | currying (settings : Settings)
  | host (answer : Call → Reply)

inductive Request where
  | newClosure (target : Target) (scope : Option (Scope Value)) (signature : Signature)
      (bound carried : List Value)
  | newSuspension (target : Target) (scope : Scope Value)
  | newScope (parent : Option (Scope Value)) (bindings : List (String × Value))
  | newCaller (scope : Option (Scope Value)) (name : Option String) (location : Option Location)
  | note (text : String)
  | apply (dispatcher : Dispatcher) (call : Call)
  | applyInFrame (dispatcher : Dispatcher) (call : Call)
  /-- Runs a suspension and whatever tail call it asks for. -/
  | force (settings : Settings) (t : Suspension Value) (state : Value)
  /-- Runs a suspension and hands its result back as it is. -/
  | resume (t : Suspension Value) (state : Value)
  /-- Runs a body on a payload without a dispatcher. -/
  | invoke (target : Target) (payload : Payload)

abbrev Request.Answer : Request → Type
  | .newClosure .. => Closure Value
  | .newSuspension .. => Suspension Value
  | .newScope .. => Scope Value
  | .newCaller .. => Caller
  | .note .. => Unit
  | .apply .. | .applyInFrame .. | .force .. | .resume .. | .invoke .. => Reply

inductive Program (α : Type) where
  | done (a : α)
  | ask (r : Request) (next : r.Answer → Program α)

namespace Program

variable {α β γ : Type}

def bind : Program α → (α → Program β) → Program β
  | .done a, f => f a
  | .ask r next, f => .ask r fun answer => (next answer).bind f

instance : Monad Program where
  pure := .done
  bind := bind

def request (r : Request) : Program r.Answer := .ask r .done

theorem bind_done (p : Program α) : p.bind .done = p := by
  induction p with
  | done a => rfl
  | ask r next ih => simp only [bind, ih]

theorem bind_assoc (p : Program α) (f : α → Program β) (g : β → Program γ) :
    (p.bind f).bind g = p.bind fun a => (f a).bind g := by
  induction p with
  | done a => rfl
  | ask r next ih => simp only [bind, ih]

def perform {m : Type → Type} [Monad m] (answer : (r : Request) → m r.Answer) :
    Program α → m α
  | .done a => pure a
  | .ask r next => do
    let a ← answer r
    (next a).perform answer

end Program

/-- The bodies that targets refer to by their labels. -/
abbrev Bodies := Nat → Payload → Program Reply

end Callable
