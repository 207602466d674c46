import Callable.Proofs.Currying

/-! Carried arguments. Whichever way the declared arguments of a closure are bound, in as many
pieces as one likes, the carried ones are applied once: after the declared ones, before those that
are in excess. This is up to the identities of closures, for bodies that apply nothing and do the
same whatever the identities; signatures may have defaults. -/

namespace Callable

open List (Forall₂)

namespace Likeness

def exceptIdentities : Likeness := upTo (fun _ _ => True) Eq False

theorem exceptIdentities_lawful : exceptIdentities.Lawful :=
  upTo_lawful fun h => by rw [h]; exact ⟨rfl, rfl⟩

namespace exceptIdentities

mutual

theorem value_refl : (v : Value) → exceptIdentities.value v v
  | .integer n => .integer n
  | .float x => .float x
  | .boolean b => .boolean b
  | .string s => .string s
  | .unit => .unit
  | .array items => .array (values_refl items)
  | .closure ⟨_, _, scope, _, bound, carried⟩ =>
    .closure (.mk trivial (captured_refl scope) rfl (values_refl bound) (values_refl carried))
  | .suspension ⟨_, _, scope⟩ => .suspension (.mk trivial (scope_refl scope))

theorem values_refl : (vs : List Value) → Forall₂ exceptIdentities.value vs vs
  | [] => .nil
  | v :: vs => .cons (value_refl v) (values_refl vs)

theorem captured_refl :
    (scope : Option (Scope Value)) → Option.Rel exceptIdentities.scope scope scope
  | none => .none
  | some scope => .some (scope_refl scope)

theorem scope_refl : (scope : Scope Value) → exceptIdentities.scope scope scope
  | .outermost bindings => .outermost (bindings_refl bindings)
  | .inner parent bindings => .inner (scope_refl parent) (bindings_refl bindings)

theorem bindings_refl : (bindings : List (String × Value)) →
    Forall₂ (Binding.Alike exceptIdentities.value) bindings bindings
  | [] => .nil
  | (_, v) :: bindings => .cons (.mk (value_refl v)) (bindings_refl bindings)

end

theorem integers_eq (ns : List Int64) {vs : List Value}
    (h : Forall₂ exceptIdentities.value (ns.map .integer) vs) : vs = ns.map .integer := by
  induction ns generalizing vs with
  | nil => exact List.forall₂_nil_left_iff.mp h
  | cons n ns ih =>
    obtain ⟨_, others, first, rest, rfl⟩ := List.forall₂_cons_left_iff.mp h
    cases first
    rw [ih rest, List.map_cons]

theorem caller_refl (caller : Option Caller) :
    Option.Rel exceptIdentities.caller caller caller :=
  Option.Rel.refl (fun c => ⟨captured_refl c.scope, rfl, rfl⟩) caller

end exceptIdentities

variable {L : Likeness} {c c' : Call}

/-- Calls that run alike bodies on alike arguments and leave alike ones over, however much of it
is bound, supplied or carried. -/
structure saturating (L : Likeness) (c c' : Call) : Prop where
  saturated : c.isSaturated = true
  saturated' : c'.isSaturated = true
  running : L.running c c'
  positional : Forall₂ L.value c.positional c'.positional
  surplus : Forall₂ L.value c.surplus c'.surplus

end Likeness

section

variable {call call' : Call} {declared excess excess' : List Value}

theorem Call.of_declared (supplied : call.supplied = declared ++ excess)
    (all : declared.length = call.closure.arity) :
    call.isSaturated = true ∧ call.positional = declared ∧
      call.surplus = call.closure.carried ++ excess := by
  refine ⟨?_, ?_, ?_⟩
  · refine Signature.isSaturatedBy_of_arity_le ?_
    have length := congrArg List.length supplied
    rw [List.length_append, all] at length
    exact length ▸ Nat.le_add_right _ _
  · rw [Call.positional, supplied, ← all, List.take_left]
  · rw [Call.surplus, supplied, ← all, List.drop_left]

theorem Likeness.exceptIdentities.saturating_of_declared (frame : exceptIdentities.frame call call')
    (supplied : call.supplied = declared ++ excess)
    (supplied' : call'.supplied = declared ++ excess')
    (all : declared.length = call.closure.arity)
    (left : call.closure.carried ++ excess = call'.closure.carried ++ excess') :
    exceptIdentities.saturating call call' := by
  have arity : call.closure.arity = call'.closure.arity :=
    congrArg Signature.arity frame.signature
  obtain ⟨saturated, positional, surplus⟩ := Call.of_declared supplied all
  obtain ⟨saturated', positional', surplus'⟩ := Call.of_declared supplied' (all.trans arity)
  refine ⟨saturated, saturated', ⟨frame, False.elim⟩, ?_, ?_⟩
  · rw [positional, positional']
    exact values_refl declared
  · rw [surplus, surplus', left]
    exact values_refl _

end

section

variable {L : Likeness} {π π' : Policy} {M : Correspondence L π π'} {c c' : Conduct}
  {base base' : List (Callee × Payload)} {call call' : Call}

theorem Correspondence.saturatingBody (lawful : L.Lawful) (calls : L.saturating call call')
    {x : π.Context} {x' : π'.Context} (contexts : M.context x x' call.state call'.state) :
    M.job (.run x call [] call.closure.signature.parameters call.positional)
      (.run x' call' [] call'.closure.signature.parameters call'.positional) := by
  rw [lawful.parameters calls.running.frame.signature]
  exact .run contexts calls.running .nil calls.positional

theorem Evaluates.simulate_saturating (lawful : L.Lawful) (conducts : M.Conducts c c')
    (calls : L.saturating call call') {x : π.Context} {x' : π'.Context}
    (contexts : M.context x x' call.state call'.state) {s s' : Store} {hs o}
    (h : Evaluates π c (.apply x call) s hs o) (stores : L.store base base' s s') :
    ∃ hs' o', Evaluates π' c' (.apply x' call') s' hs' o' ∧ L.outcome base base' o o' := by
  have states := calls.running.frame.state
  have announced := stores.log (M.announce call) (M.announce' call')
  have own := M.saturatingBody lawful calls (M.own states)
  have left' (left : call.surplus ≠ []) : call'.surplus ≠ [] := by
    rintro none_left
    exact left (List.forall₂_nil_right_iff.mp (none_left ▸ calls.surplus))
  cases h with
  | cut => exact ⟨[], _, .cut, .error stores⟩
  | bind unsaturated => cases calls.saturated.symm.trans unsaturated
  | exact _ none_left run =>
    have none_left' : call'.surplus = [] :=
      List.forall₂_nil_left_iff.mp (none_left ▸ calls.surplus)
    obtain ⟨hs', o', run', alike⟩ :=
      run.simulate lawful conducts (M.saturatingBody lawful calls contexts) announced
    exact ⟨hs', o', .exact calls.saturated' none_left' run', alike⟩
  | excessStop _ left run stops =>
    obtain ⟨hs', o', run', alike⟩ := run.simulate lawful conducts own announced
    exact ⟨hs', o', .excessStop calls.saturated' (left' left) run' (alike.stops stops), alike⟩
  | excess _ left run surplus =>
    obtain ⟨hs', o', run', alike⟩ := run.simulate lawful conducts own announced
    obtain ⟨v', t', rfl, values, stores⟩ := alike.of_value
    obtain ⟨f', rfl, closures⟩ := lawful.closure_of_value values
    have onward : M.job (.apply (π.own call.state) ⟨_, none, call.state, call.surplus⟩)
        (.apply (π'.own call'.state) ⟨f', none, call'.state, call'.surplus⟩) :=
      .apply (M.own states) (Likeness.call.applied ⟨closures, .none, states, calls.surplus⟩)
    obtain ⟨hs'', o'', surplus', alike⟩ := surplus.simulate lawful conducts onward
      (stores.log (.surplus _ _) (.surplus _ _))
    exact ⟨hs' ++ hs'', o'', .excess calls.saturated' (left' left) run' surplus', alike⟩
  | excessOther _ left run other =>
    obtain ⟨hs', o', run', alike⟩ := run.simulate lawful conducts own announced
    obtain ⟨v', t', rfl, values, stores⟩ := alike.of_value
    refine ⟨hs', _, .excessOther calls.saturated' (left' left) run'
      (lawful.other_of_value values other), ?_⟩
    rw [lawful.typeName values]
    exact .ok (.error (.settled (Settled.notAFunction _))) (stores.log (.surplus _ _)
      (.surplus _ _))

end

namespace Machine

variable {call : Call}

theorem apply_of_unsaturated (bodies : Bodies) (settings : Settings)
    (unsaturated : call.isSaturated = false) (s : Store) :
    ∃ i t, Ends bodies (apply · · settings call) s (.ok (.ok (.closure (call.rebound i))) t) ∧
      t.invocations = s.invocations := by
  obtain ⟨i, t, bound, invocations⟩ := bindSupplied_invocations unsaturated
    (s.log ((Policy.loops settings).announce call))
  have once : Ends bodies (fun eval _ => eval (.dispatch settings call)) s
      (.ok (.ok (.closure (call.rebound i))) t) :=
    .step ⟨0, fun _ _ => (dispatch_of_unsaturated unsaturated).trans bound⟩
  rw [Store.invocations_log_of_quiet (Policy.loops_announce_quiet settings call)] at invocations
  exact ⟨i, t, once.bind (.constant rfl), invocations⟩

end Machine

/-- The ways to come to a closure that has bound these arguments: they are given to the
constructor, appended to a copy of those that are bound, or applied without there being enough. -/
inductive Binds (bodies : Bodies) (target : Target) (scope : Option (Scope Value))
    (signature : Signature) (carried : List Value) (s : Store) :
    List Value → Closure Value → Store → Prop where
  | constructed {bound f t}
      (built : Run.newClosure target scope signature bound carried s = .ok f t) :
      Binds bodies target scope signature carried s bound f t
  | extended {bound f t more g u} (binds : Binds bodies target scope signature carried s bound f t)
      (built : Run.rebind f (f.bound ++ more) t = .ok g u) :
      Binds bodies target scope signature carried s (bound ++ more) g u
  | applied {bound f t settings caller state more g u}
      (binds : Binds bodies target scope signature carried s bound f t)
      (unsaturated : Call.isSaturated ⟨f, caller, state, more⟩ = false)
      (ends : Ends bodies (Machine.apply · · settings ⟨f, caller, state, more⟩) t
        (.ok (.ok (.closure g)) u)) :
      Binds bodies target scope signature carried s (bound ++ more) g u

theorem Binds.closure {bodies : Bodies} {target : Target} {scope : Option (Scope Value)}
    {signature : Signature} {carried bound : List Value} {s t : Store} {f : Closure Value}
    (binds : Binds bodies target scope signature carried s bound f t) :
    (∃ i, f = ⟨i, target, scope, signature, bound, carried⟩) ∧ t.invocations = s.invocations := by
  induction binds with
  | constructed built =>
    obtain ⟨rfl, rfl⟩ := Run.newClosure_eq_ok built
    exact ⟨⟨_, rfl⟩, rfl⟩
  | extended binds built ih =>
    obtain ⟨⟨i, rfl⟩, invocations⟩ := ih
    obtain ⟨rfl, rfl⟩ := Run.newClosure_eq_ok built
    exact ⟨⟨_, rfl⟩, invocations⟩
  | applied binds unsaturated ends ih =>
    obtain ⟨⟨i, rfl⟩, invocations⟩ := ih
    obtain ⟨j, u, ends', invocations'⟩ := Machine.apply_of_unsaturated _ _ unsaturated _
    cases ends.unique ends'
    exact ⟨⟨j, rfl⟩, invocations'.trans invocations⟩

namespace Bodies

open Likeness.exceptIdentities

/-- Bodies that do the same whatever the identities. -/
def Indifferent (bodies : Bodies) : Prop :=
  ∀ label {p p'}, Likeness.exceptIdentities.payload p p' →
    Likeness.exceptIdentities.program True Likeness.exceptIdentities.reply (bodies label p)
      (bodies label p')

theorem Indifferent.conducts {bodies : Bodies} (indifferent : Indifferent bodies)
    (undispatched : Undispatched bodies) (settings : Settings) :
    (Policy.loopsLoops Likeness.exceptIdentities settings).Conducts
      (.ofBodies bodies undispatched) (.ofBodies bodies undispatched) := fun label _ _ payloads =>
  (indifferent label payloads).bind fun _ _ replies => .done (.reply replies)

section

variable {bodies : Bodies} (undispatched : Undispatched bodies) (indifferent : Indifferent bodies)
  (settings : Settings)

include undispatched indifferent

theorem saturating_ends {call call' : Call}
    (calls : Likeness.exceptIdentities.saturating call call') {s s' : Store} {o : Outcome Reply}
    (finished : o.Finished) (ends : Ends bodies (Machine.apply · · settings call) s o) :
    ∃ o', o'.Finished ∧ Ends bodies (Machine.apply · · settings call') s' o' ∧
      Likeness.exceptIdentities.outcome s.invocations s'.invocations o o' := by
  rw [← Conduct.bodies_ofBodies bodies undispatched settings] at ends ⊢
  obtain ⟨hs, evaluated⟩ := (Machine.ends_apply_iff finished).mp ends
  have contexts := (Policy.loopsLoops Likeness.exceptIdentities settings).own
    calls.running.frame.state
  obtain ⟨hs', o', evaluated', outcomes⟩ := evaluated.simulate_saturating
    Likeness.exceptIdentities_lawful (indifferent.conducts undispatched settings) calls contexts
    (.start fun _ => trivial)
  have finished' := outcomes.finished finished
  exact ⟨o', finished', (Machine.ends_apply_iff finished').mpr ⟨hs', evaluated'⟩, outcomes⟩

/-- However the first of the declared arguments are bound, to apply what has bound them to the rest
and the excess is to apply a closure that has bound and carries nothing to all of them at once,
with the carried arguments between the declared ones and the excess. To bind them runs nothing. -/
theorem carried_once {target : Target} {scope : Option (Scope Value)} {signature : Signature}
    {carried bound : List Value} {s t : Store} {f : Closure Value}
    (binds : Binds bodies target scope signature carried s bound f t) {rest : List Value}
    (declared : (bound ++ rest).length = signature.arity) (excess : List Value)
    (caller : Option Caller) (state : Value) (identity : Nat) (u u' : Store) :
    t.invocations = s.invocations ∧
    (∀ o, o.Finished →
      Ends bodies (Machine.apply · · settings ⟨f, caller, state, rest ++ excess⟩) u o →
      ∃ o', o'.Finished ∧ Ends bodies (Machine.apply · · settings
          ⟨⟨identity, target, scope, signature, [], []⟩, caller, state,
            bound ++ rest ++ carried ++ excess⟩) u' o' ∧
        Likeness.exceptIdentities.outcome u.invocations u'.invocations o o') ∧
    ∀ o, o.Finished → Ends bodies (Machine.apply · · settings
        ⟨⟨identity, target, scope, signature, [], []⟩, caller, state,
          bound ++ rest ++ carried ++ excess⟩) u' o →
      ∃ o', o'.Finished ∧
        Ends bodies (Machine.apply · · settings ⟨f, caller, state, rest ++ excess⟩) u o' ∧
        Likeness.exceptIdentities.outcome u'.invocations u.invocations o o' := by
  obtain ⟨⟨i, rfl⟩, quiet⟩ := binds.closure
  have frame (i j : Nat) (bound carried arguments bound' carried' arguments' : List Value) :
      Likeness.exceptIdentities.frame
        ⟨⟨i, target, scope, signature, bound, carried⟩, caller, state, arguments⟩
        ⟨⟨j, target, scope, signature, bound', carried'⟩, caller, state, arguments'⟩ :=
    ⟨rfl, captured_refl scope, rfl, caller_refl caller, value_refl state⟩
  have supplied : bound ++ (rest ++ excess) = bound ++ rest ++ excess :=
    (List.append_assoc _ _ _).symm
  have supplied' : [] ++ (bound ++ rest ++ carried ++ excess) =
      bound ++ rest ++ (carried ++ excess) := List.append_assoc _ _ _
  -- what is left over is in both the carried arguments and then the excess
  refine ⟨quiet, fun o finished ends => ?_, fun o finished ends => ?_⟩
  · exact saturating_ends undispatched indifferent settings
      (saturating_of_declared (frame ..) supplied supplied' declared rfl) finished ends
  · exact saturating_ends undispatched indifferent settings
      (saturating_of_declared (frame ..) supplied' supplied declared rfl) finished ends

end

theorem collecting_indifferent : Indifferent collecting := by
  intro label p p' payloads
  match label with
  | 0 =>
    refine .ask (.newClosure .none rfl .nil .nil) ?_
    rintro _ _ ⟨i, i', _, rfl, rfl⟩
    exact .done (.ok (.closure (.mk trivial .none rfl .nil .nil)))
  | _ + 1 => exact .done (.ok (.array payloads.arguments))

def defaulting : Signature := ⟨.loop, .withheld, [.plain 0 "x", .defaulted 1 "y"], by decide⟩

theorem defaulting_binds : ∃ f t, Binds collecting ⟨"collector", 0, none⟩ none defaulting
    [.integer 2] {} ([] ++ [] ++ [.integer 1]) f t := by
  have constructed : Binds collecting ⟨"collector", 0, none⟩ none defaulting [.integer 2] {} []
      ⟨0, _, _, _, _, _⟩ _ := .constructed rfl
  have unsaturated : Call.isSaturated ⟨⟨0, ⟨"collector", 0, none⟩, none, defaulting, [],
    [.integer 2]⟩, none, .unit, []⟩ = false := rfl
  obtain ⟨i, t, ends, -⟩ := Machine.apply_of_unsaturated collecting {} unsaturated _
  exact ⟨_, _, (constructed.applied unsaturated ends).extended rfl⟩

theorem defaulting_once : (Undispatched collecting ∧ Indifferent collecting) ∧
    ∃ f t u, Binds collecting ⟨"collector", 0, none⟩ none defaulting [.integer 2] {}
        ([] ++ [] ++ [.integer 1]) f t ∧
      Ends collecting (Machine.apply · · {} ⟨f, none, .unit, [.integer 7] ++ [.integer 3]⟩) t
        (.ok (.ok (.array [.integer 2, .integer 3])) u) := by
  refine ⟨⟨collecting_undispatched, collecting_indifferent⟩, ?_⟩
  obtain ⟨f, t, binds⟩ := defaulting_binds
  have whole : Ends collecting (Machine.apply · · {} ⟨⟨9, ⟨"collector", 0, none⟩, none, defaulting,
      [], []⟩, none, .unit, [] ++ [] ++ [.integer 1] ++ [.integer 7] ++ [.integer 2] ++
        [.integer 3]⟩) {} (.ok (.ok (.array [.integer 2, .integer 3])) _) :=
    .of_apply 9 rfl trivial
  obtain ⟨o', finished, ends, outcomes⟩ := (carried_once collecting_undispatched
    collecting_indifferent {} binds rfl [.integer 3] none .unit 9 t {}).2.2 _
    (Outcome.finished_ok _ _) whole
  obtain ⟨_, u, rfl, values, -⟩ := outcomes.of_value
  cases values with
  | array items =>
    obtain rfl := integers_eq [2, 3] items
    exact ⟨f, t, u, binds, ends⟩

end Bodies

end Callable
