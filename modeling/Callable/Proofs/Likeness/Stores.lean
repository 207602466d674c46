import Callable.Proofs.Evaluation
import Callable.Proofs.Likeness

/-! Alike stores and outcomes. Of a journal only the invocations of bodies count. What a machine
does on its own, with alike calls in alike stores, leaves alike stores. -/

namespace Callable

open List (Forall₂)

def Entry.invocation? : Entry → Option (Callee × Payload)
  | .invoked callee payload => some (callee, payload)
  | _ => none

def Store.invocations (s : Store) : List (Callee × Payload) :=
  s.journal.filterMap Entry.invocation?

def Quiet (entries : List Entry) : Prop := ∀ e ∈ entries, e.invocation? = none

theorem Quiet.surplus (name : String) (pending : Nat) :
    Quiet [.event (.surplus name pending)] := by
  simp [Quiet, Entry.invocation?]

theorem Quiet.nil : Quiet [] := by
  simp [Quiet]

theorem Policy.loops_announce_quiet (settings : Settings) (call : Call) :
    Quiet ((loops settings).announce call) := by
  unfold Policy.loops
  cases settings.traceCalls <;> simp [Quiet, Entry.invocation?]

theorem Policy.loops_enter_quiet (settings : Settings) (x : (loops settings).Context)
    (request : TailCall) : Quiet ((loops settings).enter x request) := by
  match x with
  | none => exact .nil
  | some ⟨_, none⟩ => simp [Policy.loops, Quiet, Entry.invocation?]
  | some ⟨_, some _⟩ => exact .nil

theorem Store.invocations_log_of_quiet {s : Store} {entries : List Entry} (h : Quiet entries) :
    (s.log entries).invocations = s.invocations := by
  have none_of : entries.reverse.filterMap Entry.invocation? = [] :=
    List.filterMap_eq_nil_iff.mpr fun e he => h e (List.mem_reverse.mp he)
  simp [Store.invocations, Store.log, none_of]

theorem Store.invocations_log_invoked (s : Store) (callee : Callee) (payload : Payload) :
    (s.log [.invoked callee payload]).invocations = (callee, payload) :: s.invocations := rfl

theorem Machine.bindSupplied_invocations {call : Call} (unsaturated : call.isSaturated = false)
    (s : Store) : ∃ i t, bindSupplied call s = .ok (.ok (.closure (call.rebound i))) t ∧
      t.invocations = s.invocations :=
  ⟨_, _, bindSupplied_of_unsaturated unsaturated, rfl⟩

namespace Likeness

variable (L : Likeness) (base base' : List (Callee × Payload))

/-- Stores in which the same was invoked since the given invocations, and in which identities
that are given out at the same time are alike. -/
structure store (s s' : Store) : Prop where
  identities : ∀ k, L.identity (s.nextIdentity + k) (s'.nextIdentity + k)
  invocations : ∃ since since', s.invocations = since ++ base ∧ s'.invocations = since' ++ base' ∧
    Forall₂ L.invocation since since'

inductive outcome : Outcome Reply → Outcome Reply → Prop where
  | ok {r r' t t'} (h : L.reply r r') (stores : L.store base base' t t') :
      outcome (.ok r t) (.ok r' t')
  | error {h t t'} (stores : L.store base base' t t') : outcome (.error h t) (.error h t')

variable {L base base'} {s s' : Store}

namespace store

theorem start (identities : ∀ k, L.identity (s.nextIdentity + k) (s'.nextIdentity + k)) :
    L.store s.invocations s'.invocations s s' :=
  ⟨identities, [], [], rfl, rfl, .nil⟩

theorem log (h : L.store base base' s s') {entries entries' : List Entry} (quiet : Quiet entries)
    (quiet' : Quiet entries') : L.store base base' (s.log entries) (s'.log entries') := by
  refine ⟨h.identities, ?_⟩
  rw [Store.invocations_log_of_quiet quiet, Store.invocations_log_of_quiet quiet']
  exact h.invocations

theorem invoke (h : L.store base base' s s') {callee callee' payload payload'}
    (hc : L.callee callee callee') (hp : L.payload payload payload') :
    L.store base base' (s.log [.invoked callee payload]) (s'.log [.invoked callee' payload']) := by
  obtain ⟨identities, since, since', e, e', alike⟩ := h
  refine ⟨identities, (callee, payload) :: since, (callee', payload') :: since', ?_, ?_,
    .cons ⟨hc, hp⟩ alike⟩
  · rw [Store.invocations_log_invoked, e, List.cons_append]
  · rw [Store.invocations_log_invoked, e', List.cons_append]

theorem congr (h : L.store base base' s s') {t t' : Store} (k : Nat)
    (ht : t.nextIdentity = s.nextIdentity + k) (ht' : t'.nextIdentity = s'.nextIdentity + k)
    (hi : t.invocations = s.invocations) (hi' : t'.invocations = s'.invocations) :
    L.store base base' t t' := by
  refine ⟨fun n => ?_, by rw [hi, hi']; exact h.invocations⟩
  rw [ht, ht', Nat.add_assoc, Nat.add_assoc]
  exact h.identities (k + n)

end store

theorem construction.construct_alike {r r' : Request} {link} (h : L.construction r r' link)
    (lawful : L.Lawful) (hs : L.store base base' s s') :
    (∃ a a' t t', r.construct s = .ok a t ∧ r'.construct s' = .ok a' t' ∧ link a a' ∧
      L.store base base' t t') ∨
    ∃ e t t', r.construct s = .error e t ∧ r'.construct s' = .error e t' ∧
      L.store base base' t t' := by
  cases h with
  | @newClosure target p p' g g' bound bound' carried carried' scope signature bounds carries =>
    have arity : g.arity = g'.arity := congrArg List.length (lawful.parameters signature)
    have length : bound.length = bound'.length := bounds.length_eq
    by_cases many : g.arity < bound.length
    · have many' : g'.arity < bound'.length := arity ▸ length ▸ many
      exact .inr ⟨_, _, _, Run.bind_of_error (Run.newClosure_of_many many),
        Run.bind_of_error (Run.newClosure_of_many many'), hs⟩
    · have fits' : ¬ g'.arity < bound'.length := arity ▸ length ▸ many
      exact .inl ⟨_, _, _, _, Run.bind_of_ok (Run.newClosure_of_fits many),
        Run.bind_of_ok (Run.newClosure_of_fits fits'), ⟨_, _, hs.identities 0, rfl, rfl⟩,
        hs.congr 1 rfl rfl rfl rfl⟩
  | newSuspension scope =>
    exact .inl ⟨_, _, _, _, rfl, rfl, ⟨_, _, hs.identities 0, rfl, rfl⟩,
      hs.congr 1 rfl rfl rfl rfl⟩
  | newScope parent bindings =>
    exact .inl ⟨_, _, _, _, rfl, rfl, ⟨rfl, rfl⟩, hs.congr 0 rfl rfl rfl rfl⟩
  | newCaller scope =>
    exact .inl ⟨_, _, _, _, rfl, rfl, ⟨rfl, rfl⟩, hs.congr 0 rfl rfl rfl rfl⟩
  | note text => exact .inl ⟨_, _, _, _, rfl, rfl, trivial, hs.congr 0 rfl rfl rfl rfl⟩

section

variable (lawful : L.Lawful) {call call' : Call}

include lawful

theorem applied.isSaturated (h : L.applied call call') : call.isSaturated = call'.isSaturated := by
  have parameters := lawful.parameters h.running.frame.signature
  unfold Call.isSaturated Signature.isSaturatedBy
  rw [parameters, h.supplied.length_eq]

theorem applied.arity (h : L.applied call call') : call.closure.arity = call'.closure.arity :=
  congrArg List.length (lawful.parameters h.running.frame.signature)

theorem applied.positional (h : L.applied call call') :
    Forall₂ L.value call.positional call'.positional := by
  unfold Call.positional
  rw [h.arity lawful]
  exact List.forall₂_take _ h.supplied

theorem applied.surplus (h : L.applied call call') :
    Forall₂ L.value call.surplus call'.surplus := by
  unfold Call.surplus
  rw [h.arity lawful]
  exact List.rel_append h.carried (List.forall₂_drop _ h.supplied)

theorem applied.left (h : L.applied call call') (left : call.surplus ≠ []) :
    call'.surplus ≠ [] := by
  have surplus := h.surplus lawful
  intro none_left
  rw [none_left] at surplus
  exact left (List.forall₂_nil_right_iff.mp surplus)

theorem applied.bindSupplied (h : L.applied call call') (hs : L.store base base' s s')
    (unsaturated : call.isSaturated = false) :
    L.outcome base base' (Machine.bindSupplied call s) (Machine.bindSupplied call' s') := by
  obtain ⟨target, scope, signature, -, -⟩ := h.running.frame
  have unsaturated' : call'.isSaturated = false := h.isSaturated lawful ▸ unsaturated
  rw [Machine.bindSupplied_of_unsaturated unsaturated,
    Machine.bindSupplied_of_unsaturated unsaturated']
  refine .ok (.ok (lawful.closure.mpr ?_)) (hs.congr 1 rfl rfl rfl rfl)
  unfold Call.rebound
  rw [target]
  exact .mk (hs.identities 0) scope signature h.supplied h.carried

theorem Lawful.presentedCaller (h : L.running call call') (hs : L.store base base' s s') :
    ∃ caller caller' t t', Machine.presentedCaller call s = .ok caller t ∧
      Machine.presentedCaller call' s' = .ok caller' t' ∧ Option.Rel L.caller caller caller' ∧
      L.store base base' t t' := by
  obtain ⟨_, _, signature, alike, _⟩ := h.frame
  have passes : call.closure.signature.passesCaller = call'.closure.signature.passesCaller := by
    unfold Signature.passesCaller
    rw [lawful.access signature]
  unfold Machine.presentedCaller
  cases given : call.caller with
  | some caller =>
    cases given' : call'.caller with
    | none => rw [given, given'] at alike; cases alike
    | some caller' => exact ⟨_, _, s, s', rfl, rfl, given ▸ given' ▸ alike, hs⟩
  | none =>
    cases given' : call'.caller with
    | some caller' => rw [given, given'] at alike; cases alike
    | none =>
      cases full : call.closure.signature.passesCaller with
      | false =>
        rw [← passes, full]
        exact ⟨_, _, s, s', rfl, rfl, .none, hs⟩
      | true =>
        rw [← passes, full]
        exact ⟨_, _, _, _, rfl, rfl, .some ⟨.none, rfl, rfl⟩, hs.congr 0 rfl rfl rfl rfl⟩

end

end Likeness

namespace Value

theorem typeName_eq_function {v : Value} : v.typeName = "Function" ↔ ∃ f, v = .closure f := by
  cases v <;> simp [typeName]

theorem typeName_eq_thunk {v : Value} : v.typeName = "Thunk" ↔ ∃ x, v = .suspension x := by
  cases v <;> simp [typeName]

theorem eq_closure_of_closure? {v : Value} {f : Closure Value} (h : v.closure? = some f) :
    v = .closure f := by
  cases v <;> cases h
  rfl

end Value

namespace Likeness

variable {L : Likeness} {base base' : List (Callee × Payload)} {t : Store} {o' : Outcome Reply}

theorem outcome.of_value {v : Value} (h : L.outcome base base' (.ok (.ok v) t) o') :
    ∃ v' t', o' = .ok (.ok v') t' ∧ L.value v v' ∧ L.store base base' t t' := by
  obtain ⟨⟨values⟩, stores⟩ := h
  exact ⟨_, _, rfl, values, stores⟩

theorem outcome.stops {o : Outcome Reply} (h : L.outcome base base' o o') (stops : o.Stops) :
    o'.Stops := by
  cases h with
  | error => trivial
  | ok h =>
    cases h with
    | ok => exact stops.elim
    | error => trivial

theorem outcome.finished {o : Outcome Reply} (h : L.outcome base base' o o')
    (finished : o.Finished) : o'.Finished := by
  cases h with
  | ok => trivial
  | @error e => cases e <;> exact finished

theorem Lawful.closure_of_value (lawful : L.Lawful) {f v'} (h : L.value (.closure f) v') :
    ∃ f', v' = .closure f' ∧ L.closure f f' := by
  obtain ⟨f', rfl⟩ := Value.typeName_eq_function.mp (lawful.typeName h).symm
  exact ⟨f', rfl, lawful.closure.mp h⟩

theorem Lawful.suspension_of_value (lawful : L.Lawful) {x v'} (h : L.value (.suspension x) v') :
    ∃ x', v' = .suspension x' ∧ L.suspension x x' := by
  obtain ⟨x', rfl⟩ := Value.typeName_eq_thunk.mp (lawful.typeName h).symm
  exact ⟨x', rfl, lawful.suspension.mp h⟩

theorem Lawful.other_of_value (lawful : L.Lawful) {v v'} (h : L.value v v')
    (other : v.closure? = none) : v'.closure? = none := by
  cases e : v'.closure? with
  | none => rfl
  | some f' =>
    have is_closure : v'.typeName = "Function" :=
      Value.typeName_eq_function.mpr ⟨f', Value.eq_closure_of_closure? e⟩
    obtain ⟨f, rfl⟩ := Value.typeName_eq_function.mp ((lawful.typeName h).trans is_closure)
    cases other

theorem Lawful.plain_of_value (lawful : L.Lawful) {v v'} (h : L.value v v')
    (plain : ∀ x, v ≠ .suspension x) (x' : Suspension Value) : v' ≠ .suspension x' := by
  intro e
  have is_suspension : v'.typeName = "Thunk" := Value.typeName_eq_thunk.mpr ⟨x', e⟩
  obtain ⟨x, rfl⟩ := Value.typeName_eq_thunk.mp ((lawful.typeName h).trans is_suspension)
  exact plain x rfl

theorem reply.settled {r r' : Reply} (h : L.reply r r') (settled : Settled r) : Settled r' := by
  cases h with
  | ok => exact .ok _
  | error h =>
    cases h with
    | settled h => exact h
    | tailCall => exact absurd settled (Settled.not_tailCall _)

theorem payload.ofSuspension {x x' : Suspension Value} {state state' : Value}
    (h : L.suspension x x') (states : L.value state state') :
    L.payload (.ofSuspension x state) (.ofSuspension x' state') :=
  ⟨.some h.scopes, .none, states, .nil⟩

theorem callee.targets {callee callee' : Callee} (h : L.callee callee callee') :
    callee.target = callee'.target := by
  cases h with
  | application h => exact h.frame.target
  | suspension h => exact h.targets
  | direct => rfl

theorem program.aside {asides : Prop} {ending : Ending → Ending → Prop} {p p' : Program Ending}
    (h : L.program asides ending p p') {callee payload next}
    (aside : p.aside? = some (callee, payload, next)) :
    asides ∧ ∃ callee' payload' next', p'.aside? = some (callee', payload', next') ∧
      L.callee callee callee' ∧ L.payload payload payload' ∧
      ∀ r r', L.reply r r' → L.program asides ending (next r) (next' r') := by
  cases h with
  | done => cases aside
  | ask h => cases h <;> cases aside
  | resume allowed suspension states rest =>
    cases aside
    exact ⟨allowed, _, _, _, rfl, .suspension suspension, .ofSuspension suspension states, rest⟩
  | invoke allowed payloads rest =>
    cases aside
    exact ⟨allowed, _, _, _, rfl, .direct _, payloads, rest⟩

end Likeness

end Callable
