import Callable.Script.Expr

/-! Evaluation of scripts to programs. Sub-expressions are evaluated from left to right; the
first fault is the result, unless an enclosing attempt handles it. -/

namespace Callable.Script

structure Context where
  definitions : List Definition
  dispatcher : Dispatcher
  settings : Settings
  payload : Payload := ⟨none, none, .unit, []⟩
  registers : List (String × Value) := []
  scopes : List (String × Scope Value) := []
  locals : List (String × Value) := []

abbrev Scripted := ExceptT Fault Program

def request (r : Request) : Scripted r.Answer := ExceptT.lift (Program.request r)

def reply (p : Program Reply) : Scripted Value := ExceptT.mk p

def fail {α : Type} (message : String) : Scripted α := throw (.failure message)

def found {α : Type} (message : String) : Option α → Scripted α
  | some a => pure a
  | none => fail message

def asClosure : Value → Scripted (Closure Value)
  | .closure f => pure f
  | v => throw (.notAFunction v.typeName)

def asSuspension : Value → Scripted (Suspension Value)
  | .suspension t => pure t
  | v => throw (.typeMismatch "Thunk" v.typeName)

def asInteger : Value → Scripted Int64
  | .integer n => pure n
  | v => throw (.typeMismatch "Int" v.typeName)

def asBoolean : Value → Scripted Bool
  | .boolean b => pure b
  | v => throw (.typeMismatch "Bool" v.typeName)

def asArray : Value → Scripted (List Value)
  | .array items => pure items
  | v => throw (.typeMismatch "Array" v.typeName)

def Arithmetic.compute : Arithmetic → Int64 → Int64 → Int64
  | .add, a, b => a + b
  | .sub, a, b => a - b
  | .mul, a, b => a * b

def Aspect.of (v : Value) : Aspect → String
  | .type => v.typeName
  | .display => v.display
  | .debug => v.debug

def nest (v : Value) : Nat → Value
  | 0 => v
  | depth + 1 => .array [nest v depth]

def repeatText (count : Nat) (piece : String) : String :=
  String.ofList ((List.replicate count piece.toList).flatten)

def faultReport (fault : Fault) : Value :=
  .array [.string fault.kind, .string fault.message, .boolean fault.isTailCall]

def textOrUnit : Option String → Value
  | some s => .string s
  | none => .unit

def depthOrUnit : Option (Scope Value) → Value
  | some scope => .integer (Int64.ofNat scope.depth)
  | none => .unit

def callerReport : Option Caller → Value
  | none => .unit
  | some c =>
    .array [.boolean c.isDetached, textOrUnit c.name, textOrUnit (c.location.map (·.text)),
      depthOrUnit c.scope]

def named {α : Type} (name : String) (entries : List (String × α)) : Option α :=
  (entries.find? (·.1 == name)).map (·.2)

namespace Context

def registerValue (c : Context) (name : String) : Scripted Value :=
  found ("no register " ++ name) (named name c.registers)

def scopeValue (c : Context) (name : String) : Scripted (Scope Value) :=
  found ("no register " ++ name) (named name c.scopes)

def variableValue (c : Context) (name : String) : Scripted Value :=
  found ("no variable " ++ name) (named name c.locals)

def definition (c : Context) (name : String) : Scripted Definition :=
  found ("no definition " ++ name) (c.definitions.find? (·.target.name == name))

def bind (c : Context) (name : String) (v : Value) : Context :=
  { c with locals := (name, v) :: c.locals }

end Context

def chained (base : Option (Scope Value)) (length : Nat) : Scripted (Option (Scope Value)) :=
  (List.range length).foldlM (fun parent i => do
    let bindings := [("c" ++ toString i, Value.integer (Int64.ofNat i))]
    return some (← request (.newScope parent bindings))) base

mutual

def Expr.eval (c : Context) : Expr → Scripted Value
  | .literal v => pure v
  | .array items => return .array (← evalAll c items)
  | .copies count item => return .array (List.replicate count (← item.eval c))
  | .text count piece => pure (.string (repeatText count piece))
  | .nested depth item => return nest (← item.eval c) depth
  | .register name => c.registerValue name
  | .variable name => c.variableValue name
  | .binding name value body => do
    let v ← value.eval c
    body.eval (c.bind name v)
  | .sequence items => return (← evalAll c items).getLast?.getD .unit
  | .log item => do
    request (.note (← item.eval c).display)
    return .unit
  | .arithmetic op left right => do
    let a ← left.eval c
    let b ← right.eval c
    return .integer (op.compute (← asInteger a) (← asInteger b))
  | .less left right => do
    let a ← left.eval c
    let b ← right.eval c
    return .boolean (decide ((← asInteger a) < (← asInteger b)))
  | .equal left right => return .boolean ((← left.eval c).equals (← right.eval c))
  | .conditional test consequent alternative => do
    if ← asBoolean (← test.eval c) then consequent.eval c else alternative.eval c
  | .element items index => do
    found ("no element " ++ toString index) (← asArray (← items.eval c))[index]?
  | .tell aspect item => return .string (aspect.of (← item.eval c))
  | .fail item => do
    match ← item.eval c with
    | .string s => fail s
    | v => fail v.display
  | .raise fault => throw fault
  | .attempt body name handler =>
    tryCatch (body.eval c) fun fault => handler.eval (c.bind name (faultReport fault))
  | .tailCall f arguments => do
    let f ← asClosure (← f.eval c)
    throw (.tailCall ⟨f, ← evalAll c arguments⟩)
  | .closure definition scope bound carried => do
    let d ← c.definition definition
    let scope ← scope.eval c
    let bound ← evalAll c bound
    let carried ← evalAll c carried
    return .closure (← request (.newClosure d.target scope d.signature bound carried))
  | .rebind how f arguments => do
    let f ← asClosure (← f.eval c)
    let arguments ← evalAll c arguments
    let bound := match how with
      | .replace => arguments
      | .extend => f.bound ++ arguments
    return .closure (← request (.newClosure f.target f.scope f.signature bound f.carried))
  | .suspension definition scope => do
    let d ← c.definition definition
    let scope ← match ← scope.eval c with
      | some scope => pure scope
      | none => request (.newScope none [])
    return .suspension (← request (.newSuspension d.target scope))
  | .apply manner f arguments caller ambient => do
    let f ← asClosure (← f.eval c)
    let arguments ← evalAll c arguments
    let caller ← caller.eval c
    let call : Call := ⟨f, caller, ← ambient.eval c, arguments⟩
    match manner with
    | .apply => reply (Program.request (.apply c.dispatcher call))
    | .inFrame => reply (Program.request (.applyInFrame c.dispatcher call))
  | .invoke f arguments caller ambient => do
    let f ← asClosure (← f.eval c)
    let arguments ← evalAll c arguments
    let caller ← caller.eval c
    let payload := Payload.ofClosure f caller (← ambient.eval c) arguments
    reply (Program.request (.invoke f.target payload))
  | .invokeIn f arguments caller ambient scope => do
    let f ← asClosure (← f.eval c)
    let arguments ← evalAll c arguments
    let caller ← caller.eval c
    let ambient ← ambient.eval c
    let scope ← scope.eval c
    reply (Program.request (.invoke f.target ⟨scope, caller, ambient, arguments⟩))
  | .force t ambient => do
    let t ← asSuspension (← t.eval c)
    reply (Program.request (.force c.settings t (← ambient.eval c)))
  | .resume t ambient => do
    let t ← asSuspension (← t.eval c)
    reply (Program.request (.resume t (← ambient.eval c)))
  | .argument index =>
    found ("no argument " ++ toString index) c.payload.arguments[index]?
  | .argumentOr index default =>
    match c.payload.arguments[index]? with
    | some v => pure v
    | none => default.eval c
  | .arguments => pure (.array c.payload.arguments)
  | .argumentCount => pure (.integer (Int64.ofNat c.payload.arguments.length))
  | .integerArgument index => do
    match c.payload.integer index with
    | .ok n => return .integer n
    | .error fault => throw fault
  | .state => pure c.payload.state
  | .depth => pure (depthOrUnit c.payload.scope)
  | .lookup name => found (name ++ " is unbound") (c.payload.scope.bind (·.lookup? name))
  | .caller => pure (callerReport c.payload.caller)
  | .callerLookup name =>
    found (name ++ " is unbound in the caller")
      ((c.payload.caller.bind (·.scope)).bind (·.lookup? name))

def evalAll (c : Context) : List Expr → Scripted (List Value)
  | [] => pure []
  | e :: es => do
    let v ← e.eval c
    let vs ← evalAll c es
    return v :: vs

def evalBindings (c : Context) : List (String × Expr) → Scripted (List (String × Value))
  | [] => pure []
  | (name, e) :: rest => do
    let v ← e.eval c
    let vs ← evalBindings c rest
    return (name, v) :: vs

def ScopeExpr.eval (c : Context) : ScopeExpr → Scripted (Option (Scope Value))
  | .none => pure none
  | .root => return some (← request (.newScope none []))
  | .here => pure c.payload.scope
  | .register name => return some (← c.scopeValue name)
  | .parent scope => return (← scope.eval c).bind (·.parent?)
  | .extend base bindings => do
    let base ← base.eval c
    let bindings ← evalBindings c bindings
    return some (← request (.newScope base bindings))
  | .chain base length => do
    chained (← base.eval c) length

def CallerExpr.eval (c : Context) : CallerExpr → Scripted (Option Caller)
  | .none => pure none
  | .detached => return some (← request (.newCaller none none none))
  | .passed => pure c.payload.caller
  | .new scope name location => do
    let scope ← scope.eval c
    return some (← request (.newCaller scope name location))

end

/-- The bodies of the definitions, each found by the label of its target. A body sees its
payload and neither the registers nor the variables of whoever called it. -/
def bodies (c : Context) : Bodies := fun label payload =>
  match c.definitions[label]? with
  | none => .done (.error (.failure ("no body " ++ toString label)))
  | some d => d.body.eval { c with payload, registers := [], scopes := [], locals := [] }

end Callable.Script
