import Callable.Proofs.Conduct
import Callable.Proofs.Settled

/-! Evaluation without loops. A body runs in a context, which says what becomes of a tail call
that it asks for, and a policy says which contexts there are. `Evaluates` derives how a job comes
out, each job from the jobs that it sets; a job may be cut off at any time, so that the finite
beginnings of an endless run are derivable too. Under `Policy.loops` a context is the state of a
call loop, and the jobs come out as on the machine. -/

namespace Callable

def Store.log (s : Store) (entries : List Entry) : Store :=
  { s with journal := entries.reverse ++ s.journal }

/-- How the tail calls that bodies ask for are performed. -/
structure Policy where
  Context : Type
  /-- For a body applied on its own account, with that state. -/
  own : Value → Context
  /-- For a body whose replies go back, as they are, to the body that runs it. -/
  back : Context
  /-- For a body applied from inside a body that runs in the given context. -/
  inFrame : Context → Call → Context
  announce : Call → List Entry
  enter : Context → TailCall → List Entry
  /-- The context and the state in which a request of a body with that payload is performed,
  unless it is refused. -/
  turn : Context → Payload → TailCall → Except Fault (Context × Value)

inductive Job (C : Type) where
  | apply (context : C) (call : Call)
  | run (context : C) (call : Call) (forced : List Value) (ps : List Parameter)
      (rest : List Value)
  | force (state : Value) (v : Value)
  | invoke (context : C) (callee : Callee) (payload : Payload)
  | perform (context : C) (payload : Payload) (p : Program Ending)
  | resolve (context : C) (payload : Payload) (request : TailCall)

/-- A tail call at the moment when a body has asked for it. -/
structure Handover (C : Type) where
  context : C
  payload : Payload
  request : TailCall
  store : Store

def Outcome.Stops : Outcome Reply → Prop
  | .ok (.ok _) _ => False
  | _ => True

def Request.construct (r : Request) : Run r.Answer :=
  Machine.answer (fun _ => throw .exhausted) 0 r

/-- A program that has a body run without a dispatcher: which one, and how it goes on. -/
def Program.aside? : Program Ending → Option (Callee × Payload × (Reply → Program Ending))
  | .ask (.resume t state) next => some (.suspension t, .ofSuspension t state, next)
  | .ask (.invoke target payload) next => some (.direct target, payload, next)
  | _ => none

open Machine in
inductive Evaluates (π : Policy) (c : Conduct) :
    Job π.Context → Store → List (Handover π.Context) → Outcome Reply → Prop where
  | cut {job s} : Evaluates π c job s [] (.error .exhausted s)
  | bind {x call s o} (unsaturated : call.isSaturated = false)
      (bound : bindSupplied call (s.log (π.announce call)) = o) :
      Evaluates π c (.apply x call) s [] o
  | exact {x call s hs o} (saturated : call.isSaturated = true) (none_left : call.surplus = [])
      (run : Evaluates π c (.run x call [] call.closure.signature.parameters call.positional)
        (s.log (π.announce call)) hs o) :
      Evaluates π c (.apply x call) s hs o
  | excessStop {x call s hs o} (saturated : call.isSaturated = true) (left : call.surplus ≠ [])
      (run : Evaluates π c (.run (π.own call.state) call [] call.closure.signature.parameters
        call.positional) (s.log (π.announce call)) hs o)
      (stops : o.Stops) :
      Evaluates π c (.apply x call) s hs o
  | excess {x call s hs hs' next t o} (saturated : call.isSaturated = true)
      (left : call.surplus ≠ [])
      (run : Evaluates π c (.run (π.own call.state) call [] call.closure.signature.parameters
        call.positional) (s.log (π.announce call)) hs (.ok (.ok (.closure next)) t))
      (surplus : Evaluates π c
        (.apply (π.own call.state) ⟨next, none, call.state, call.surplus⟩)
        (t.log [.event (.surplus call.closure.name call.surplus.length)]) hs' o) :
      Evaluates π c (.apply x call) s (hs ++ hs') o
  | excessOther {x call s hs v t} (saturated : call.isSaturated = true)
      (left : call.surplus ≠ [])
      (run : Evaluates π c (.run (π.own call.state) call [] call.closure.signature.parameters
        call.positional) (s.log (π.announce call)) hs (.ok (.ok v) t))
      (other : v.closure? = none) :
      Evaluates π c (.apply x call) s hs (.ok (.error (.notAFunction v.typeName))
        (t.log [.event (.surplus call.closure.name call.surplus.length)]))
  | keep {x call forced p ps v vs s hs o} (suspended : p.isSuspended = true)
      (rest : Evaluates π c (.run x call (forced ++ [v]) ps vs) s hs o) :
      Evaluates π c (.run x call forced (p :: ps) (v :: vs)) s hs o
  | forced {x call forced p ps v w vs s hs t hs' o} (executed : p.isSuspended = false)
      (first : Evaluates π c (.force call.state v) s hs (.ok (.ok w) t))
      (rest : Evaluates π c (.run x call (forced ++ [w]) ps vs) t hs' o) :
      Evaluates π c (.run x call forced (p :: ps) (v :: vs)) s (hs ++ hs') o
  | forceStop {x call forced p ps v vs s hs o} (executed : p.isSuspended = false)
      (first : Evaluates π c (.force call.state v) s hs o) (stops : o.Stops) :
      Evaluates π c (.run x call forced (p :: ps) (v :: vs)) s hs o
  | body {x call forced ps rest s caller t hs o} (all : ps = [] ∨ rest = [])
      (presented : presentedCaller call s = .ok caller t)
      (invoke : Evaluates π c (.invoke x (.application call)
        (.ofClosure call.closure caller call.state (forced ++ rest))) t hs o) :
      Evaluates π c (.run x call forced ps rest) s hs o
  | value {state v s} (plain : ∀ t, v ≠ .suspension t) :
      Evaluates π c (.force state v) s [] (.ok (.ok v) s)
  | again {state t s hs v u hs' o}
      (first : Evaluates π c (.invoke (π.own state) (.suspension t) (.ofSuspension t state)) s hs
        (.ok (.ok v) u))
      (rest : Evaluates π c (.force state v) u hs' o) :
      Evaluates π c (.force state (.suspension t)) s (hs ++ hs') o
  | suspensionStop {state t s hs o}
      (first : Evaluates π c (.invoke (π.own state) (.suspension t) (.ofSuspension t state)) s hs
        o) (stops : o.Stops) :
      Evaluates π c (.force state (.suspension t)) s hs o
  | invoke {x callee payload s hs o}
      (perform : Evaluates π c (.perform x payload (c.body callee.target.body payload))
        (s.log [.invoked callee payload]) hs o) :
      Evaluates π c (.invoke x callee payload) s hs o
  | reply {x payload r s} (settled : Settled r) :
      Evaluates π c (.perform x payload (.done (.reply r))) s [] (.ok r s)
  | request {x payload request s hs o}
      (resolve : Evaluates π c (.resolve x payload request) (s.log (π.enter x request)) hs o) :
      Evaluates π c (.perform x payload (.done (.reply (.error (.tailCall request))))) s
        (⟨x, payload, request, s.log (π.enter x request)⟩ :: hs) o
  | frame {x payload call s hs o}
      (inside : Evaluates π c (.apply (π.inFrame x call) call) s hs o) :
      Evaluates π c (.perform x payload (.done (.frame call))) s hs o
  | ask {x payload s hs o} {r : Request} {next : r.Answer → Program Ending} {a : r.Answer} {t}
      (answered : r.construct s = .ok a t)
      (rest : Evaluates π c (.perform x payload (next a)) t hs o) :
      Evaluates π c (.perform x payload (.ask r next)) s hs o
  | askHalt {x payload s} {r : Request} {next : r.Answer → Program Ending} {h t}
      (halted : r.construct s = .error h t) :
      Evaluates π c (.perform x payload (.ask r next)) s [] (.error h t)
  | aside {x payload p callee payload' next s hs r t hs' o}
      (aside : p.aside? = some (callee, payload', next))
      (first : Evaluates π c (.invoke π.back callee payload') s hs (.ok r t))
      (rest : Evaluates π c (.perform x payload (next r)) t hs' o) :
      Evaluates π c (.perform x payload p) s (hs ++ hs') o
  | asideHalt {x payload p callee payload' next s hs h t}
      (aside : p.aside? = some (callee, payload', next))
      (first : Evaluates π c (.invoke π.back callee payload') s hs (.error h t)) :
      Evaluates π c (.perform x payload p) s hs (.error h t)
  | refuse {x payload request fault s} (turn : π.turn x payload request = .error fault) :
      Evaluates π c (.resolve x payload request) s [] (.ok (.error fault) s)
  | next {x payload request y state s hs o} (turn : π.turn x payload request = .ok (y, state))
      (apply : Evaluates π c (.apply y (requested state request)) s hs o) :
      Evaluates π c (.resolve x payload request) s hs o

structure Loop where
  state : Value
  performed : Option UInt64

namespace Policy

/-- A loop performs requests with its own state and counts them. Without a loop, a request is
the reply. -/
def loops (settings : Settings) : Policy where
  Context := Option Loop
  own state := some ⟨state, none⟩
  back := none
  inFrame context call :=
    match call.closure.signature.strategy with
    | .loop => some ⟨call.state, none⟩
    | .direct => context
  announce call := .dispatched call ::
    if settings.traceCalls then
      [.event (.apply call.closure.name call.supplied.length call.closure.arity)]
    else []
  enter
    | some ⟨_, none⟩, request => [.event (.callLoop request.closure.name)]
    | _, _ => []
  turn
    | some ⟨state, performed⟩, _, _ =>
      let count := performed.getD 0 + 1
      match settings.exceeded? count with
      | some limit => .error (.loopLimit limit)
      | none => .ok (some ⟨state, some count⟩, state)
    | none, _, request => .error (.tailCall request)

section

variable {settings : Settings} {x : (loops settings).Context} {call : Call}

theorem loops_inFrame_of_loop (loop : call.closure.signature.strategy = .loop) :
    (loops settings).inFrame x call = (loops settings).own call.state := by
  simp only [loops, loop]

theorem loops_inFrame_of_direct (direct : call.closure.signature.strategy = .direct) :
    (loops settings).inFrame x call = x := by
  simp only [loops, direct]
  rfl

variable {loop : Loop} {payload : Payload} {request : TailCall}

theorem loops_turn_of_exceeded {limit : UInt64}
    (exceeded : settings.exceeded? (loop.performed.getD 0 + 1) = some limit) :
    (loops settings).turn (some loop) payload request = .error (.loopLimit limit) := by
  simp only [loops, exceeded]

theorem loops_turn_of_within
    (within : settings.exceeded? (loop.performed.getD 0 + 1) = none) :
    (loops settings).turn (some loop) payload request =
      .ok (some ⟨loop.state, some (loop.performed.getD 0 + 1)⟩, loop.state) := by
  simp only [loops, within]

theorem loops_turn_eq_ok {y : (loops settings).Context} {state : Value}
    (turn : (loops settings).turn x payload request = .ok (y, state)) :
    ∃ loop, x = some loop ∧ settings.exceeded? (loop.performed.getD 0 + 1) = none ∧
      y = some ⟨loop.state, some (loop.performed.getD 0 + 1)⟩ ∧ state = loop.state := by
  match x with
  | none => cases turn
  | some loop =>
    cases exceeded : settings.exceeded? (loop.performed.getD 0 + 1) with
    | some limit => cases (loops_turn_of_exceeded exceeded).symm.trans turn
    | none =>
      cases (loops_turn_of_within exceeded).symm.trans turn
      exact ⟨loop, rfl, exceeded, rfl, rfl⟩

end

/-- Direct style: a body's request is a nested application with the state of that body, and so
is an application from inside it. There are no loops. -/
def direct : Policy where
  Context := Unit
  own _ := ()
  back := ()
  inFrame _ _ := ()
  announce _ := []
  enter _ _ := []
  turn _ payload _ := .ok ((), payload.state)

end Policy

end Callable
