import Callable.Foreign
import Callable.Script.Eval
import Callable.Session.Rendering

/-! The steps of a session and what they find. A step runs on a machine, and its finding is
rendered only after the log of the step, since rendering gives out numbers. -/

namespace Callable.Session

open Script

inductive Step where
  | eval (e : Expr) (register : Option String)
  | scope (s : ScopeExpr) (register : Option String) (names : List String)
  | inspect (e : Expr)
  | describe (e : Expr)
  | sameSignature (left right : Expr)
  | tally
  | settings
  | context (f : Option Expr)
  | execute (f : Expr) (arguments : List Expr) (register : Option String)
  | invokeMember (f : Expr) (member : String) (arguments : List Expr)
      (register : Option String)
  | members (f : Expr) (names : List String) (includeInternal : Bool)

structure ClosureReport where
  name : String
  target : String
  location : Option String
  loops : Bool
  signature : Signature
  scope : Option Nat
  bound : List Rendered
  remaining : Nat
  carried : List Rendered
  debug : String
  display : String

structure SuspensionReport where
  name : String
  location : Option String
  scope : Nat
  debug : String

inductive Outcome where
  | value (v : Rendered)
  | scope (depth parent : Option Nat) (found : List (Option Rendered))
  | closure (r : ClosureReport)
  | suspension (r : SuspensionReport)
  | description (d : Description)
  | verdict (b : Bool)
  | tally (t : Tally)
  | settings (s : Settings)
  | context (state : Rendered) (applied : Option Rendered)
  | members (executable hasMembers : Bool) (members : Rendered) (invocable : List Bool)
  | failed (r : Report)

structure Finding where
  outcome : Render Outcome
  registers : List (String × Value) := []
  scopes : List (String × Scope Value) := []

namespace Finding

def value (register : Option String) (v : Value) : Finding where
  outcome := do return .value (← render v)
  registers := (register.map fun name => (name, v)).toList

def hostReply (register : Option String) : Except HostFault Value → Finding
  | .ok v => value register v
  | .error fault => { outcome := do return .failed (← reportHostFault fault) }

def renderOption : Option Value → Render (Option Rendered)
  | none => pure none
  | some v => return some (← render v)

def scope (register : Option String) (names : List String) (s : Option (Scope Value)) :
    Finding where
  outcome := do
    let found ← names.mapM fun name => renderOption (s.bind (·.lookup? name))
    return .scope (s.map (·.depth)) ((s.bind (·.parent?)).map (·.depth)) found
  scopes := ((register.bind fun name => s.map fun s => (name, s))).toList

def closure (f : Closure Value) : Finding where
  outcome := do
    let bound ← renderAll f.bound
    let carried ← renderAll f.carried
    return .closure {
      name := f.name, target := f.target.name, location := f.target.location.map (·.text)
      loops := f.signature.strategy == .loop, signature := f.signature
      scope := f.scope.map (·.depth), bound, remaining := f.remainingArity, carried
      debug := f.debug, display := (Value.closure f).display }

def suspension (t : Suspension Value) : Finding where
  outcome := do return .suspension {
    name := t.target.name, location := t.target.location.map (·.text)
    scope := t.scope.depth, debug := t.debug }

end Finding

/-- What a step runs on: a machine, and what the session holds for scripts and hosts. -/
structure Stage where
  eval : Evaluator
  rounds : Nat
  context : Context
  host : Host
  lastTally : Tally

abbrev Act := ExceptT Fault Run

namespace Stage

variable (stage : Stage)

def perform {α : Type} (s : Scripted α) : Act α :=
  ExceptT.mk (s.run.perform (Machine.answer stage.eval stage.rounds))

def value (e : Expr) : Act Value := stage.perform (e.eval stage.context)

def values (es : List Expr) : Act (List Value) := stage.perform (evalAll stage.context es)

def closure (e : Expr) : Act (Closure Value) :=
  stage.perform (e.eval stage.context >>= asClosure)

def applied (f : Closure Value) : Act Value :=
  ExceptT.mk (Machine.dispatcherApply stage.eval stage.rounds stage.host.dispatcher
    ⟨f, none, stage.host.defaultState, []⟩)

def run : Step → Act Finding
  | .eval e register => return .value register (← stage.value e)
  | .scope s register names =>
    return .scope register names (← stage.perform (s.eval stage.context))
  | .inspect e => do
    match ← stage.value e with
    | .closure f => return .closure f
    | .suspension t => return .suspension t
    | v => throw (.notAFunction v.typeName)
  | .describe e => do
    let v ← stage.value e
    return { outcome := do return .description (← Session.describe v) }
  | .sameSignature left right => do
    let f ← stage.closure left
    let g ← stage.closure right
    return { outcome := pure (.verdict (f.signature == g.signature)) }
  | .tally => do
    let now := (← getThe Store).tally
    return { outcome := pure (.tally (now.since stage.lastTally)) }
  | .settings => return { outcome := pure (.settings stage.context.settings) }
  | .context f => do
    let state := stage.host.defaultState
    match f with
    | none => return { outcome := do return .context (← render state) none }
    | some f =>
      let v ← stage.applied (← stage.closure f)
      let outcome : Render Outcome := do
        let applied ← render v
        return .context (← render state) (some applied)
      return { outcome }
  | .execute f arguments register => do
    let f ← stage.closure f
    let arguments ← stage.values arguments
    let reply ← ExceptT.lift (f.execute stage.eval stage.rounds stage.host arguments)
    return .hostReply register reply
  | .invokeMember f member arguments register => do
    let f ← stage.closure f
    let arguments ← stage.values arguments
    return .hostReply register (f.invokeMember member arguments)
  | .members f names includeInternal => do
    let f ← stage.closure f
    let outcome : Render Outcome := do
      let members ← render (f.members includeInternal)
      return .members f.isExecutable f.hasMembers members (names.map f.isInvocable)
    return { outcome }

end Stage

end Callable.Session
