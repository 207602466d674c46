import Callable.Program
import Callable.Store

/-! The machine that applies closures. Too few arguments make a new closure and run nothing;
enough of them run the body once; what is left over goes to the result. A tail call is performed
by a call loop in place of the body that asked for it.

The rules are stated over an evaluator for whatever happens deeper down. `evaluate` ties the
knot by fuel, which bounds the nesting of bodies and applications and the length of each loop. -/

namespace Callable

inductive Task where
  | dispatch (settings : Settings) (call : Call)
  | invoke (callee : Callee) (payload : Payload)

abbrev Evaluator := Task → Run Reply

namespace Machine

/-- Performs tail calls one after the other until a reply is none, with the state of the frame
that the loop belongs to. The count of iterations is a 64-bit number and wraps around. -/
def callLoop (eval : Evaluator) (settings : Settings) (state : Value) :
    Nat → UInt64 → TailCall → Run Reply
  | 0, _, _ => throw .exhausted
  | rounds + 1, performed, request =>
    match settings.exceeded? (performed + 1) with
    | some limit => pure (.error (.loopLimit limit))
    | none => do
      match ← eval (.dispatch settings ⟨request.closure, none, state, request.arguments⟩) with
      | .error (.tailCall next) => callLoop eval settings state rounds (performed + 1) next
      | reply => pure reply

variable (eval : Evaluator) (rounds : Nat)

def settle (settings : Settings) (state : Value) : Reply → Run Reply
  | .error (.tailCall request) => do
    Run.emit (.callLoop request.closure.name)
    callLoop eval settings state rounds 0 request
  | reply => pure reply

def apply (settings : Settings) (call : Call) : Run Reply := do
  settle eval rounds settings call.state (← eval (.dispatch settings call))

/-- Application from inside a body. A tail call of a direct closure is handed to the loop that
the body runs in. -/
def applyInFrame (settings : Settings) (call : Call) : Run Reply := do
  let reply ← eval (.dispatch settings call)
  match call.closure.signature.strategy with
  | .loop => settle eval rounds settings call.state reply
  | .direct => pure reply

def resume (t : Suspension Value) (state : Value) : Run Reply :=
  eval (.invoke (.suspension t) (.ofSuspension t state))

def force (settings : Settings) (t : Suspension Value) (state : Value) : Run Reply := do
  settle eval rounds settings state (← resume eval t state)

def forceValue (settings : Settings) (state : Value) : Nat → Value → Run Reply
  | 0, .suspension _ => throw .exhausted
  | steps + 1, .suspension t => do
    match ← force eval rounds settings t state with
    | .ok v => forceValue settings state steps v
    | .error fault => pure (.error fault)
  | _, v => pure (.ok v)

def forceArgument (settings : Settings) (state : Value) (p : Parameter) (v : Value) :
    Run Reply :=
  if p.isSuspended then pure (.ok v) else forceValue eval rounds settings state rounds v

def forceArguments (settings : Settings) (state : Value) :
    List Parameter → List Value → Run (Except Fault (List Value))
  | p :: ps, v :: vs => do
    match ← forceArgument eval rounds settings state p v with
    | .error fault => pure (.error fault)
    | .ok v =>
      match ← forceArguments settings state ps vs with
      | .error fault => pure (.error fault)
      | .ok vs => pure (.ok (v :: vs))
  | _, vs => pure (.ok vs)

/-- The caller that the body is shown: the given one, or a detached one where the signature has
full access and none is given. -/
def presentedCaller (call : Call) : Run (Option Caller) :=
  match call.caller with
  | some caller => pure (some caller)
  | none => do
    if call.closure.signature.passesCaller then
      Run.emit (.detachedCaller call.closure.name)
      return some (← Run.newCaller none none none)
    else return none

def applySurplus (settings : Settings) (call : Call) : Reply → Run Reply
  | .error fault => pure (.error fault)
  | .ok result => do
    Run.emit (.surplus call.closure.name call.surplus.length)
    match result with
    | .closure next => apply eval rounds settings ⟨next, none, call.state, call.surplus⟩
    | other => pure (.error (.notAFunction other.typeName))

def runBody (settings : Settings) (call : Call) : Run Reply := do
  match ← forceArguments eval rounds settings call.state call.closure.signature.parameters
      call.positional with
  | .error fault => pure (.error fault)
  | .ok arguments =>
    let caller ← presentedCaller call
    let reply ← eval (.invoke (.application call)
      (.ofClosure call.closure caller call.state arguments))
    if call.surplus.isEmpty then return reply
    let settled ← settle eval rounds settings call.state reply
    applySurplus eval rounds settings call settled

def announce (settings : Settings) (call : Call) : Run Unit := do
  Run.record (.dispatched call)
  if settings.traceCalls then
    Run.emit (.apply call.closure.name call.supplied.length call.closure.arity)

def bindSupplied (call : Call) : Run Reply := do
  Run.emit (.partialApplication call.closure.name call.supplied.length call.closure.arity)
  return .ok (.closure (← Run.rebind call.closure call.supplied))

/-- One application, whose reply may be a tail call that nothing has resolved yet. -/
def dispatch (settings : Settings) (call : Call) : Run Reply := do
  announce settings call
  if call.isSaturated then runBody eval rounds settings call else bindSupplied call

def dispatcherApply : Dispatcher → Call → Run Reply
  | .currying settings, call => apply eval rounds settings call
  | .host answer, call => pure (answer call)

def dispatcherApplyInFrame : Dispatcher → Call → Run Reply
  | .currying settings, call => applyInFrame eval rounds settings call
  | .host answer, call => pure (answer call)

def answer : (r : Request) → Run r.Answer
  | .newClosure target scope signature bound carried => do
    let f ← Run.newClosure target scope signature bound carried
    Run.record (.created .closure)
    return f
  | .newSuspension target scope => do
    Run.record (.created .suspension)
    Run.newSuspension target scope
  | .newScope parent bindings => do
    Run.record (.created .scope)
    Run.newScope parent bindings
  | .newCaller scope name location => do
    Run.record (.created .caller)
    Run.newCaller scope name location
  | .note text => Run.record (.note text)
  | .apply dispatcher call => dispatcherApply eval rounds dispatcher call
  | .applyInFrame dispatcher call => dispatcherApplyInFrame eval rounds dispatcher call
  | .force settings t state => force eval rounds settings t state
  | .resume t state => resume eval t state
  | .invoke target payload => eval (.invoke (.direct target) payload)

def step (bodies : Bodies) : Evaluator
  | .dispatch settings call => dispatch eval rounds settings call
  | .invoke callee payload => do
    Run.record (.invoked callee payload)
    (bodies callee.target.body payload).perform (answer eval rounds)

def evaluate (bodies : Bodies) : Nat → Evaluator
  | 0, _ => throw .exhausted
  | fuel + 1, task => step (evaluate bodies fuel) fuel bodies task

end Machine

end Callable
