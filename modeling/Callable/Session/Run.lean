import Callable.Session.Step

/-! Sessions: definitions, a dispatcher, and steps that are run one after the other. The answer
of a step is its outcome and the log of what happened meanwhile. A step that fails or meets a
defect does not end the session. -/

namespace Callable.Session

open Script

structure Draft where
  name : String
  location : Option Location
  strategy : Strategy
  access : FrameAccess
  parameters : List Parameter
  body : Expr

def Draft.define (d : Draft) (label : Nat) : Except Defect Definition := do
  let signature ← Signature.build d.strategy d.access d.parameters
  return ⟨⟨d.name, label, d.location⟩, signature, d.body⟩

structure Plan where
  drafts : List Draft
  settings : Settings
  traced : Bool
  dispatcher : Dispatcher
  defaultState : Value
  steps : List Step

/-- A host that runs nothing and answers with what it was asked to apply. -/
def recorder : Dispatcher := .host fun call =>
  .ok (.array [.string call.closure.name, .boolean call.caller.isSome, call.state,
    .array call.arguments])

structure State where
  store : Store := {}
  registers : List (String × Value) := []
  scopes : List (String × Scope Value) := []
  shown : Shown := #[]
  lastTally : Tally := {}

structure Answer where
  outcome : Outcome
  log : Log

def fuel : Nat := 0x4000000000000000

def State.keep (s : State) (f : Finding) : State :=
  { s with registers := f.registers ++ s.registers, scopes := f.scopes ++ s.scopes }

def State.answer (s : State) (traced : Bool) (store : Store) (outcome : Render Outcome) :
    Answer × State :=
  let rendering : Render Answer := do
    let log ← renderLog traced store.history
    return ⟨← outcome, log⟩
  let (answer, shown) := rendering.run s.shown
  (answer, { s with store := { store with journal := [] }, shown })

def runStep (plan : Plan) (definitions : List Definition) (s : State) (step : Step) :
    Answer × State :=
  let context : Context := {
    definitions
    dispatcher := plan.dispatcher
    settings := plan.settings
    registers := s.registers
    scopes := s.scopes }
  let stage : Stage := {
    eval := Machine.evaluate (bodies context) fuel
    rounds := fuel
    context
    host := ⟨plan.dispatcher, plan.defaultState⟩
    lastTally := s.lastTally }
  match (stage.run step).run.run s.store with
  | .ok (.ok finding) store =>
    let s := match step with
      | .tally => { s with lastTally := store.tally }
      | _ => s
    (s.keep finding).answer plan.traced store finding.outcome
  | .ok (.error fault) store =>
    s.answer plan.traced store (return .failed (← reportFault fault))
  | .error (.defect d) store => s.answer plan.traced store (pure (.failed (.defect d)))
  | .error .exhausted store => s.answer plan.traced store (pure (.failed .exhausted))

def run (plan : Plan) : Except Defect (List Answer × Tally) := do
  let definitions ← plan.drafts.zipIdx.mapM fun (d, label) => d.define label
  let steps : StateM State (List Answer) :=
    plan.steps.mapM fun step s => runStep plan definitions s step
  let (answers, final) := steps.run {}
  return (answers, final.store.tally)

def constant? (e : Expr) : Option Value :=
  match (e.eval ⟨[], recorder, {}, ⟨none, none, .unit, []⟩, [], [], []⟩).run with
  | .done (.ok v) => some v
  | _ => none

def compare (vs : List Value) : List Description × List (List Bool) :=
  let descriptions : Render (List Description) := vs.mapM describe
  ((descriptions.run #[]).1, vs.map fun v => vs.map v.equals)

end Callable.Session
