import Callable.Proofs.Conduct
import Callable.Proofs.Settled
import Mathlib.Data.List.Forall2

/-! Likeness. Two runs are compared up to what a `Likeness` leaves open: which identities and
which signatures count as the same, and with them which values, payloads and programs do. -/

namespace Callable

open List (Forall₂)

section

variable {V : Type}

inductive Binding.Alike (value : V → V → Prop) : String × V → String × V → Prop where
  | mk {name v v'} (h : value v v') : Binding.Alike value (name, v) (name, v')

inductive Scope.Alike (value : V → V → Prop) : Scope V → Scope V → Prop where
  | outermost {bs bs'} (h : Forall₂ (Binding.Alike value) bs bs') :
      Scope.Alike value (.outermost bs) (.outermost bs')
  | inner {p p' bs bs'} (parent : Scope.Alike value p p')
      (h : Forall₂ (Binding.Alike value) bs bs') :
      Scope.Alike value (.inner p bs) (.inner p' bs')

inductive Closure.Alike (identity : Nat → Nat → Prop) (signature : Signature → Signature → Prop)
    (value : V → V → Prop) : Closure V → Closure V → Prop where
  | mk {i i' target p p' g g' bound bound' carried carried'} (same_identity : identity i i')
      (scope : Option.Rel (Scope.Alike value) p p') (same_signature : signature g g')
      (bounds : Forall₂ value bound bound') (carries : Forall₂ value carried carried') :
      Closure.Alike identity signature value ⟨i, target, p, g, bound, carried⟩
        ⟨i', target, p', g', bound', carried'⟩

inductive Suspension.Alike (identity : Nat → Nat → Prop) (value : V → V → Prop) :
    Suspension V → Suspension V → Prop where
  | mk {i i' target p p'} (same_identity : identity i i') (scope : Scope.Alike value p p') :
      Suspension.Alike identity value ⟨i, target, p⟩ ⟨i', target, p'⟩

namespace Closure.Alike

variable {identity : Nat → Nat → Prop} {signature : Signature → Signature → Prop}
  {value : V → V → Prop} {f f' : Closure V} (h : Closure.Alike identity signature value f f')

include h

theorem targets : f.target = f'.target := by
  cases h; rfl

theorem scopes : Option.Rel (Scope.Alike value) f.scope f'.scope := by
  cases h; assumption

theorem signatures : signature f.signature f'.signature := by
  cases h; assumption

theorem bounds : Forall₂ value f.bound f'.bound := by
  cases h; assumption

theorem carries : Forall₂ value f.carried f'.carried := by
  cases h; assumption

end Closure.Alike

theorem Suspension.Alike.targets {identity : Nat → Nat → Prop} {value : V → V → Prop}
    {t t' : Suspension V} (h : Suspension.Alike identity value t t') : t.target = t'.target := by
  cases h; rfl

theorem Suspension.Alike.scopes {identity : Nat → Nat → Prop} {value : V → V → Prop}
    {t t' : Suspension V} (h : Suspension.Alike identity value t t') :
    Scope.Alike value t.scope t'.scope := by
  cases h; assumption

end

/-- Values that differ only in identities and signatures, and in these only so much. -/
inductive Value.Alike (identity : Nat → Nat → Prop) (signature : Signature → Signature → Prop) :
    Value → Value → Prop where
  | integer (n) : Value.Alike identity signature (.integer n) (.integer n)
  | float (x) : Value.Alike identity signature (.float x) (.float x)
  | boolean (b) : Value.Alike identity signature (.boolean b) (.boolean b)
  | string (s) : Value.Alike identity signature (.string s) (.string s)
  | unit : Value.Alike identity signature .unit .unit
  | array {vs vs'} (h : Forall₂ (Value.Alike identity signature) vs vs') :
      Value.Alike identity signature (.array vs) (.array vs')
  | closure {f f'} (h : Closure.Alike identity signature (Value.Alike identity signature) f f') :
      Value.Alike identity signature (.closure f) (.closure f')
  | suspension {t t'} (h : Suspension.Alike identity (Value.Alike identity signature) t t') :
      Value.Alike identity signature (.suspension t) (.suspension t')

/-- What counts as the same in two runs. -/
structure Likeness where
  identity : Nat → Nat → Prop
  signature : Signature → Signature → Prop
  value : Value → Value → Prop
  /-- Whether calls whose bodies run are alike as a whole, or only in what their frames have. -/
  whole : Prop

namespace Likeness

section

variable (L : Likeness)

abbrev scope : Scope Value → Scope Value → Prop := Scope.Alike L.value

abbrev closure : Closure Value → Closure Value → Prop :=
  Closure.Alike L.identity L.signature L.value

abbrev suspension : Suspension Value → Suspension Value → Prop :=
  Suspension.Alike L.identity L.value

structure caller (c c' : Caller) : Prop where
  scope : Option.Rel L.scope c.scope c'.scope
  name : c.name = c'.name
  location : c.location = c'.location

structure payload (p p' : Payload) : Prop where
  scope : Option.Rel L.scope p.scope p'.scope
  caller : Option.Rel L.caller p.caller p'.caller
  state : L.value p.state p'.state
  arguments : Forall₂ L.value p.arguments p'.arguments

structure call (c c' : Call) : Prop where
  closure : L.closure c.closure c'.closure
  caller : Option.Rel L.caller c.caller c'.caller
  state : L.value c.state c'.state
  arguments : Forall₂ L.value c.arguments c'.arguments

structure frame (c c' : Call) : Prop where
  target : c.closure.target = c'.closure.target
  scope : Option.Rel L.scope c.closure.scope c'.closure.scope
  signature : L.signature c.closure.signature c'.closure.signature
  caller : Option.Rel L.caller c.caller c'.caller
  state : L.value c.state c'.state

structure running (c c' : Call) : Prop where
  frame : L.frame c c'
  whole : L.whole → L.call c c'

structure applied (c c' : Call) : Prop where
  running : L.running c c'
  supplied : Forall₂ L.value c.supplied c'.supplied
  carried : Forall₂ L.value c.closure.carried c'.closure.carried

structure request (q q' : TailCall) : Prop where
  closure : L.closure q.closure q'.closure
  arguments : Forall₂ L.value q.arguments q'.arguments

inductive fault : Fault → Fault → Prop where
  | settled {f} (h : Settled (.error f : Reply)) : fault f f
  | tailCall {q q'} (h : L.request q q') : fault (.tailCall q) (.tailCall q')

inductive reply : Reply → Reply → Prop where
  | ok {v v'} (h : L.value v v') : reply (.ok v) (.ok v')
  | error {f f'} (h : L.fault f f') : reply (.error f) (.error f')

inductive callee : Callee → Callee → Prop where
  | application {c c'} (h : L.running c c') : callee (.application c) (.application c')
  | suspension {t t'} (h : L.suspension t t') : callee (.suspension t) (.suspension t')
  | direct (target) : callee (.direct target) (.direct target)

def invocation (i i' : Callee × Payload) : Prop := L.callee i.1 i'.1 ∧ L.payload i.2 i'.2

inductive construction : (r r' : Request) → (r.Answer → r'.Answer → Prop) → Prop where
  | newClosure {target p p' g g' bound bound' carried carried'}
      (scope : Option.Rel L.scope p p') (signature : L.signature g g')
      (bounds : Forall₂ L.value bound bound') (carries : Forall₂ L.value carried carried') :
      construction (.newClosure target p g bound carried)
        (.newClosure target p' g' bound' carried') fun f f' => ∃ i i', L.identity i i' ∧
          f = ⟨i, target, p, g, bound, carried⟩ ∧ f' = ⟨i', target, p', g', bound', carried'⟩
  | newSuspension {target p p'} (scope : L.scope p p') :
      construction (.newSuspension target p) (.newSuspension target p') fun t t' =>
        ∃ i i', L.identity i i' ∧ t = ⟨i, target, p⟩ ∧ t' = ⟨i', target, p'⟩
  | newScope {p p' bs bs'} (parent : Option.Rel L.scope p p')
      (bindings : Forall₂ (Binding.Alike L.value) bs bs') :
      construction (.newScope p bs) (.newScope p' bs') fun q q' =>
        q = .within p bs ∧ q' = .within p' bs'
  | newCaller {p p' name location} (scope : Option.Rel L.scope p p') :
      construction (.newCaller p name location) (.newCaller p' name location) fun c c' =>
        c = ⟨p, name, location⟩ ∧ c' = ⟨p', name, location⟩
  | note (text) : construction (.note text) (.note text) fun _ _ => True

/-- Programs that ask for the same, as long as they are answered the same, and end the same. -/
inductive program {α : Type} (asides : Prop) (ending : α → α → Prop) :
    Program α → Program α → Prop where
  | done {a a'} (h : ending a a') : program asides ending (.done a) (.done a')
  | ask {r r' link next next'} (h : L.construction r r' link)
      (rest : ∀ a a', link a a' → program asides ending (next a) (next' a')) :
      program asides ending (.ask r next) (.ask r' next')
  | resume {t t' state state' next next'} (allowed : asides) (suspension : L.suspension t t')
      (states : L.value state state')
      (rest : ∀ r r', L.reply r r' → program asides ending (next r) (next' r')) :
      program asides ending (.ask (.resume t state) next) (.ask (.resume t' state') next')
  | invoke {target p p' next next'} (allowed : asides) (payload : L.payload p p')
      (rest : ∀ r r', L.reply r r' → program asides ending (next r) (next' r')) :
      program asides ending (.ask (.invoke target p) next) (.ask (.invoke target p') next')

inductive ending (frames : Call → Call → Prop) : Ending → Ending → Prop where
  | reply {r r'} (h : L.reply r r') : ending frames (.reply r) (.reply r')
  | frame {c c'} (allowed : frames c c') (h : L.call c c') :
      ending frames (.frame c) (.frame c')

/-- What makes a likeness one that applications cannot tell apart. -/
structure Lawful : Prop where
  typeName : ∀ {v v'}, L.value v v' → v.typeName = v'.typeName
  closure : ∀ {f f'}, L.value (.closure f) (.closure f') ↔ L.closure f f'
  suspension : ∀ {t t'}, L.value (.suspension t) (.suspension t') ↔ L.suspension t t'
  access : ∀ {g g'}, L.signature g g' → g.access = g'.access
  parameters : ∀ {g g'}, L.signature g g' → g.parameters = g'.parameters

variable {L}

theorem call.frame {c c' : Call} (h : L.call c c') : L.frame c c' :=
  ⟨h.closure.targets, h.closure.scopes, h.closure.signatures, h.caller, h.state⟩

theorem call.running {c c' : Call} (h : L.call c c') : L.running c c' :=
  ⟨h.frame, fun _ => h⟩

theorem call.applied {c c' : Call} (h : L.call c c') : L.applied c c' :=
  ⟨h.running, List.rel_append h.closure.bounds h.arguments, h.closure.carries⟩

theorem request.requested {q q' : TailCall} {state state' : Value} (h : L.request q q')
    (states : L.value state state') :
    L.applied (Machine.requested state q) (Machine.requested state' q') :=
  call.applied ⟨h.closure, .none, states, h.arguments⟩

theorem program.bind {α β : Type} {asides : Prop} {ending : α → α → Prop}
    {ending' : β → β → Prop} {p p' : Program α} {f f' : α → Program β}
    (h : L.program asides ending p p')
    (hf : ∀ a a', ending a a' → L.program asides ending' (f a) (f' a')) :
    L.program asides ending' (p.bind f) (p'.bind f') := by
  induction h with
  | done h => exact hf _ _ h
  | ask h _ ih => exact .ask h ih
  | resume allowed suspension states _ ih => exact .resume allowed suspension states ih
  | invoke allowed payload _ ih => exact .invoke allowed payload ih

end

end Likeness

end Callable
