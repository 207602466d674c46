import Callable.Foreign
import Callable.Proofs.Conduct

/-! What is in a value. An array has its items in it, a closure what is bound, carried and captured
by it, a suspension what it captures. What has values in it is taken through their list here, so
that a property of closures is said of a value, a payload, a call or a reply in the same way. An
honest body makes up no closures: those that it hands on are from what it is given. -/

namespace Callable

def Scope.values (scope : Scope Value) : List Value := scope.flat.map (·.2)

namespace Value

def parts : Value → List Value
  | .array items => items
  | .closure f => f.scope.elim [] Scope.values ++ f.bound ++ f.carried
  | .suspension t => t.scope.values
  | _ => []

/-- The second value is the first one, or somewhere in it. -/
inductive Holds : Value → Value → Prop where
  | here {v} : Holds v v
  | part {v u w} (mem : u ∈ v.parts) (inside : Holds u w) : Holds v w

theorem holds_iff {v w : Value} : v.Holds w ↔ v = w ∨ ∃ u ∈ v.parts, u.Holds w := by
  constructor
  · intro h
    cases h with
    | here => exact .inl rfl
    | part mem inside => exact .inr ⟨_, mem, inside⟩
  · rintro (rfl | ⟨u, mem, inside⟩)
    · exact .here
    · exact .part mem inside

end Value

def Caller.values (c : Caller) : List Value := c.scope.elim [] Scope.values

def Payload.values (p : Payload) : List Value :=
  p.scope.elim [] Scope.values ++ p.caller.elim [] Caller.values ++ p.state :: p.arguments

def Call.values (c : Call) : List Value :=
  .closure c.closure :: (c.caller.elim [] Caller.values ++ c.state :: c.arguments)

def Callee.values : Callee → List Value
  | .application call => call.values
  | .suspension t => [.suspension t]
  | .direct _ => []

def Fault.values : Fault → List Value
  | .tailCall request => .closure request.closure :: request.arguments
  | _ => []

def HostFault.values : HostFault → List Value
  | .callee fault => fault.values
  | _ => []

def Reply.values : Reply → List Value
  | .ok v => [v]
  | .error fault => fault.values

def HostFault.told : Except HostFault Value → List Value
  | .ok v => [v]
  | .error fault => fault.values

def Entry.values : Entry → List Value
  | .dispatched call => call.values
  | .invoked callee payload => callee.values ++ payload.values
  | _ => []

namespace Request

def values : Request → List Value
  | .newClosure _ scope _ bound carried => scope.elim [] Scope.values ++ bound ++ carried
  | .newSuspension _ scope => scope.values
  | .newScope parent bindings => parent.elim [] Scope.values ++ bindings.map (·.2)
  | .newCaller scope _ _ => scope.elim [] Scope.values
  | .note _ => []
  | .apply _ call | .applyInFrame _ call => call.values
  | .force _ t state | .resume t state => [.suspension t, state]
  | .invoke _ payload => payload.values

def answered : (r : Request) → r.Answer → List Value
  | .newClosure .., f => [.closure f]
  | .newSuspension .., t => [.suspension t]
  | .newScope .., scope => scope.values
  | .newCaller .., caller => caller.values
  | .note .., _ => []
  | .apply .., reply | .applyInFrame .., reply | .force .., reply | .resume .., reply
  | .invoke .., reply => Reply.values reply

/-- A closure is asked for with no more bound arguments than parameters. -/
def Asserted : Request → Prop
  | .newClosure _ _ signature bound _ => bound.length ≤ signature.arity
  | _ => True

end Request

/-- Each closure in these values is in the given ones. -/
def Drawn (given vs : List Value) : Prop :=
  ∀ v ∈ vs, ∀ f, v.Holds (.closure f) → ∃ u ∈ given, u.Holds (.closure f)

theorem Drawn.of_subset {given vs : List Value} (h : vs ⊆ given) : Drawn given vs :=
  fun v mem _ inside => ⟨v, h mem, inside⟩

/-- The program involves no dispatcher, asks for well-formed closures and makes up none. -/
def Program.Honest : Program Reply → List Value → Prop
  | .done reply, given => Drawn given (Reply.values reply)
  | .ask r next, given => r.Undispatched ∧ r.Asserted ∧ Drawn given r.values ∧
      ∀ answer, (next answer).Honest (r.answered answer ++ given)

/-- Besides what they are called with, bodies may have the given values at hand. -/
def Bodies.Honest (bodies : Bodies) (given : List Value) : Prop :=
  ∀ label payload, (bodies label payload).Honest (payload.values ++ given)

theorem Program.Honest.undispatched {p : Program Reply} {given : List Value}
    (h : p.Honest given) : p.Within Request.Undispatched fun _ => True := by
  induction p generalizing given with
  | done => trivial
  | ask r next ih => exact ⟨h.1, fun answer => ih answer (h.2.2.2 answer)⟩

theorem Bodies.Honest.undispatched {bodies : Bodies} {given : List Value}
    (h : bodies.Honest given) : bodies.Undispatched :=
  fun label payload => (h label payload).undispatched

/-- The arguments that a closure has bound are for parameters that it has. -/
structure Closure.Fits (f : Closure Value) : Prop where
  le : f.bound.length ≤ f.arity
  whole : f.bound.length + f.remainingArity = f.arity

theorem Closure.fits_iff {f : Closure Value} : f.Fits ↔ f.bound.length ≤ f.arity :=
  ⟨fun h => h.le, fun h => ⟨h, Nat.add_sub_cancel' h⟩⟩

def Value.Fitting (v : Value) : Prop := ∀ f, v.Holds (.closure f) → f.Fits

def Fitting (vs : List Value) : Prop := ∀ v ∈ vs, v.Fitting

theorem Drawn.fitting {given vs : List Value} (drawn : Drawn given vs) (h : Fitting given) :
    Fitting vs := by
  intro v mem f inside
  obtain ⟨u, mem', inside'⟩ := drawn v mem f inside
  exact h u mem' f inside'

@[simp] theorem fitting_nil : Fitting [] := fun _ mem => nomatch mem

@[simp] theorem fitting_cons {v : Value} {vs : List Value} :
    Fitting (v :: vs) ↔ v.Fitting ∧ Fitting vs :=
  List.forall_mem_cons

@[simp] theorem fitting_append {us vs : List Value} :
    Fitting (us ++ vs) ↔ Fitting us ∧ Fitting vs :=
  List.forall_mem_append

theorem Fitting.of_subset {us vs : List Value} (h : Fitting us) (subset : vs ⊆ us) : Fitting vs :=
  fun v mem => h v (subset mem)

theorem Value.fitting_iff {v : Value} :
    v.Fitting ↔ (∀ f, v = .closure f → f.Fits) ∧ Callable.Fitting v.parts := by
  constructor
  · exact fun h => ⟨fun f same => h f (same ▸ .here), fun u mem f inside => h f (.part mem inside)⟩
  · intro h f inside
    rcases Value.holds_iff.mp inside with same | ⟨u, mem, inside⟩
    · exact h.1 f same
    · exact h.2 u mem f inside

@[simp] theorem Value.fitting_closure {f : Closure Value} : (Value.closure f).Fitting ↔
    f.Fits ∧ Callable.Fitting (f.scope.elim [] Scope.values) ∧ Callable.Fitting f.bound ∧
      Callable.Fitting f.carried := by
  simp [Value.fitting_iff (v := .closure f), parts]

@[simp] theorem Value.fitting_suspension {t : Suspension Value} :
    (Value.suspension t).Fitting ↔ Callable.Fitting t.scope.values := by
  simp [Value.fitting_iff (v := .suspension t), parts]

abbrev Reply.Fitting (reply : Reply) : Prop := Callable.Fitting (Reply.values reply)

theorem Reply.fitting_ok {v : Value} : Reply.Fitting (.ok v) ↔ v.Fitting := by
  simp [Reply.Fitting, Reply.values]

@[simp] theorem Scope.values_within (parent : Option (Scope Value))
    (bindings : List (String × Value)) : (Scope.within parent bindings).values =
      parent.elim [] Scope.values ++ bindings.map (·.2) := by
  cases parent <;> simp [Scope.within, Scope.values, Scope.flat]

end Callable
