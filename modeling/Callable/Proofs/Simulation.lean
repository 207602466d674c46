import Callable.Proofs.Likeness.Stores

/-! Alike bodies evaluate alike. Two evaluations may follow different policies, if the contexts
correspond in which the policies run bodies. -/

namespace Callable

open List (Forall₂)

inductive Likeness.turn (L : Likeness) {C C' : Type} (context : C → C' → Value → Value → Prop) :
    Except Fault (C × Value) → Except Fault (C' × Value) → Prop where
  | refuse {f f'} (h : L.fault f f') : L.turn context (.error f) (.error f')
  | next {x x' state state'} (h : L.value state state') (contexts : context x x' state state') :
      L.turn context (.ok (x, state)) (.ok (x', state'))

namespace Likeness.turn

variable {L : Likeness} {C C' : Type} {context : C → C' → Value → Value → Prop}
  {turn' : Except Fault (C' × Value)}

theorem of_error {f : Fault} (h : L.turn context (.error f) turn') :
    ∃ f', turn' = .error f' ∧ L.fault f f' := by
  cases h with
  | refuse h => exact ⟨_, rfl, h⟩

theorem of_ok {x : C} {state : Value} (h : L.turn context (.ok (x, state)) turn') :
    ∃ x' state', turn' = .ok (x', state') ∧ L.value state state' ∧
      context x x' state state' := by
  cases h with
  | next h contexts => exact ⟨_, _, rfl, h, contexts⟩

end Likeness.turn

/-- Which contexts of two policies correspond, for bodies that run with these states. -/
structure Correspondence (L : Likeness) (π π' : Policy) where
  context : π.Context → π'.Context → Value → Value → Prop
  asides : Prop
  frames : Payload → Payload → Call → Call → Prop
  own : ∀ {state state'}, L.value state state' →
    context (π.own state) (π'.own state') state state'
  back : asides → ∀ state state', context π.back π'.back state state'
  inFrame : ∀ {x x' p p' c c'}, context x x' p.state p'.state → frames p p' c c' → L.call c c' →
    context (π.inFrame x c) (π'.inFrame x' c') c.state c'.state
  announce : ∀ call, Quiet (π.announce call)
  announce' : ∀ call, Quiet (π'.announce call)
  enter : ∀ x request, Quiet (π.enter x request)
  enter' : ∀ x request, Quiet (π'.enter x request)
  turn : ∀ {x x' p p' q q'}, context x x' p.state p'.state → L.payload p p' → L.request q q' →
    L.turn context (π.turn x p q) (π'.turn x' p' q')

namespace Correspondence

variable {L : Likeness} {π π' : Policy} (M : Correspondence L π π')

/-- Conducts of which alike payloads bring about alike programs. -/
def Conducts (c c' : Conduct) : Prop := ∀ label {p p'}, L.payload p p' →
  L.program M.asides (L.ending (M.frames p p')) (c.body label p) (c'.body label p')

inductive job : Job π.Context → Job π'.Context → Prop where
  | apply {x x' call call'} (contexts : M.context x x' call.state call'.state)
      (calls : L.applied call call') : job (.apply x call) (.apply x' call')
  | run {x x' call call' forced forced' ps vs vs'}
      (contexts : M.context x x' call.state call'.state) (calls : L.running call call')
      (before : Forall₂ L.value forced forced') (rest : Forall₂ L.value vs vs') :
      job (.run x call forced ps vs) (.run x' call' forced' ps vs')
  | force {state state' v v'} (states : L.value state state') (values : L.value v v') :
      job (.force state v) (.force state' v')
  | invoke {x x' callee callee' payload payload'}
      (contexts : M.context x x' payload.state payload'.state) (callees : L.callee callee callee')
      (payloads : L.payload payload payload') :
      job (.invoke x callee payload) (.invoke x' callee' payload')
  | perform {x x' payload payload' p p'}
      (contexts : M.context x x' payload.state payload'.state)
      (payloads : L.payload payload payload')
      (programs : L.program M.asides (L.ending (M.frames payload payload')) p p') :
      job (.perform x payload p) (.perform x' payload' p')
  | resolve {x x' payload payload' request request'}
      (contexts : M.context x x' payload.state payload'.state)
      (payloads : L.payload payload payload') (requests : L.request request request') :
      job (.resolve x payload request) (.resolve x' payload' request')

end Correspondence

namespace Correspondence

variable {L : Likeness} {π π' : Policy} {M : Correspondence L π π'} {x : π.Context}
  {x' : π'.Context} {call call' : Call}

theorem job.run_cons {forced ps v vs job'} (h : M.job (.run x call forced ps (v :: vs)) job') :
    ∃ x' call' forced' v' vs', job' = .run x' call' forced' ps (v' :: vs') ∧
      L.value call.state call'.state ∧ L.value v v' ∧
      ∀ ps w w', L.value w w' → M.job (.run x call (forced ++ [w]) ps vs)
        (.run x' call' (forced' ++ [w']) ps vs') := by
  cases h with
  | run contexts calls before left =>
    cases left with
    | cons value left =>
      exact ⟨_, _, _, _, _, rfl, calls.frame.state, value, fun ps w w' h =>
        .run contexts calls (List.rel_append before (.cons h .nil)) left⟩

theorem body (lawful : L.Lawful) (contexts : M.context x x' call.state call'.state)
    (calls : L.applied call call') :
    M.job (.run x call [] call.closure.signature.parameters call.positional)
      (.run x' call' [] call'.closure.signature.parameters call'.positional) := by
  rw [lawful.parameters calls.running.frame.signature]
  exact .run contexts calls.running .nil (calls.positional lawful)

theorem ownBody (lawful : L.Lawful) (calls : L.applied call call') :
    M.job (.run (π.own call.state) call [] call.closure.signature.parameters call.positional)
      (.run (π'.own call'.state) call' [] call'.closure.signature.parameters
        call'.positional) :=
  body lawful (M.own calls.running.frame.state) calls

theorem surplus (lawful : L.Lawful) (calls : L.applied call call') {f f' : Closure Value}
    (h : L.closure f f') :
    M.job (.apply (π.own call.state) ⟨f, none, call.state, call.surplus⟩)
      (.apply (π'.own call'.state) ⟨f', none, call'.state, call'.surplus⟩) := by
  have states := calls.running.frame.state
  exact .apply (M.own states) (Likeness.call.applied ⟨h, .none, states, calls.surplus lawful⟩)

theorem forced {t t' : Suspension Value} {state state' : Value}
    (states : L.value state state') (h : L.suspension t t') :
    M.job (.invoke (π.own state) (.suspension t) (.ofSuspension t state))
      (.invoke (π'.own state') (.suspension t') (.ofSuspension t' state')) :=
  .invoke (M.own states) (.suspension h) (.ofSuspension h states)

end Correspondence

namespace Evaluates

variable {L : Likeness} {π π' : Policy} {M : Correspondence L π π'} {c c' : Conduct}
  {base base' : List (Callee × Payload)}

/-- By induction on the evaluation that is matched, rule by rule. -/
theorem simulate (lawful : L.Lawful) (conducts : M.Conducts c c') {job job' s s' hs o}
    (h : Evaluates π c job s hs o) (jobs : M.job job job') (stores : L.store base base' s s') :
    ∃ hs' o', Evaluates π' c' job' s' hs' o' ∧ L.outcome base base' o o' := by
  induction h generalizing job' s' with
  | cut => exact ⟨[], _, .cut, .error stores⟩
  | bind unsaturated bound =>
    obtain @⟨_, x', _, call', contexts, calls⟩ := jobs
    refine ⟨[], _, .bind (calls.isSaturated lawful ▸ unsaturated) rfl, ?_⟩
    rw [← bound]
    exact calls.bindSupplied lawful (stores.log (M.announce _) (M.announce' _)) unsaturated
  | exact saturated none_left _ run =>
    obtain @⟨_, x', _, call', contexts, calls⟩ := jobs
    obtain ⟨hs', o', run', alike⟩ := run (M.body lawful contexts calls)
      (stores.log (M.announce _) (M.announce' _))
    have none_left' : call'.surplus = [] :=
      List.forall₂_nil_left_iff.mp (none_left ▸ calls.surplus lawful)
    exact ⟨hs', o', .exact (calls.isSaturated lawful ▸ saturated) none_left' run', alike⟩
  | excessStop saturated left _ stops run =>
    obtain @⟨_, x', _, call', contexts, calls⟩ := jobs
    obtain ⟨hs', o', run', alike⟩ := run (M.ownBody lawful calls)
      (stores.log (M.announce _) (M.announce' _))
    exact ⟨hs', o', .excessStop (calls.isSaturated lawful ▸ saturated)
      (calls.left lawful left) run' (alike.stops stops), alike⟩
  | excess saturated left _ _ run surplus =>
    obtain @⟨_, x', _, call', contexts, calls⟩ := jobs
    obtain ⟨hs', o', run', alike⟩ := run (M.ownBody lawful calls)
      (stores.log (M.announce _) (M.announce' _))
    obtain ⟨v', t', rfl, values, stores⟩ := alike.of_value
    obtain ⟨f', rfl, closures⟩ := lawful.closure_of_value values
    obtain ⟨hs'', o'', surplus', alike⟩ := surplus (M.surplus lawful calls closures)
      (stores.log (.surplus _ _) (.surplus _ _))
    exact ⟨hs' ++ hs'', o'', .excess (calls.isSaturated lawful ▸ saturated)
      (calls.left lawful left) run' surplus', alike⟩
  | excessOther saturated left _ other run =>
    obtain @⟨_, x', _, call', contexts, calls⟩ := jobs
    obtain ⟨hs', o', run', alike⟩ := run (M.ownBody lawful calls)
      (stores.log (M.announce _) (M.announce' _))
    obtain ⟨v', t', rfl, values, stores⟩ := alike.of_value
    refine ⟨hs', _, .excessOther (calls.isSaturated lawful ▸ saturated) (calls.left lawful left)
      run' (lawful.other_of_value values other), ?_⟩
    rw [lawful.typeName values]
    exact .ok (.error (.settled (Settled.notAFunction _))) (stores.log (.surplus _ _)
      (.surplus _ _))
  | keep suspended _ rest =>
    obtain ⟨x', call', forced', v', vs', rfl, -, value, onward⟩ := jobs.run_cons
    obtain ⟨hs', o', rest', alike⟩ := rest (onward _ _ _ value) stores
    exact ⟨hs', o', .keep suspended rest', alike⟩
  | forced executed _ _ first rest =>
    obtain ⟨x', call', forced', v', vs', rfl, states, value, onward⟩ := jobs.run_cons
    obtain ⟨hs', o', first', alike⟩ := first (.force states value) stores
    obtain ⟨w', t', rfl, value, stores⟩ := alike.of_value
    obtain ⟨hs'', o'', rest', alike⟩ := rest (onward _ _ _ value) stores
    exact ⟨hs' ++ hs'', o'', .forced executed first' rest', alike⟩
  | forceStop executed _ stops first =>
    obtain ⟨x', call', forced', v', vs', rfl, states, value, -⟩ := jobs.run_cons
    obtain ⟨hs', o', first', alike⟩ := first (.force states value) stores
    exact ⟨hs', o', .forceStop executed first' (alike.stops stops), alike⟩
  | body all presented _ invoke =>
    cases jobs with
    | @run _ x' _ call' _ forced' _ _ rest' contexts calls before left =>
      obtain ⟨caller, caller', t, t', presents, presents', callers, stores⟩ :=
        lawful.presentedCaller calls stores
      cases presented.symm.trans presents
      have frame := calls.frame
      have payloads : L.payload (.ofClosure _ _ _ _)
          (.ofClosure call'.closure caller' call'.state (forced' ++ rest')) :=
        ⟨frame.scope, callers, frame.state, List.rel_append before left⟩
      have jobs : M.job (.invoke _ _ _) (.invoke x' (.application call') _) :=
        .invoke contexts (.application calls) payloads
      obtain ⟨hs', o', invoke', alike⟩ := invoke jobs stores
      refine ⟨hs', o', .body (all.imp_right ?_) presents' invoke', alike⟩
      rintro rfl
      exact List.forall₂_nil_left_iff.mp left
  | value plain =>
    cases jobs with
    | force states values =>
      exact ⟨[], _, .value (lawful.plain_of_value values plain), .ok (.ok values) stores⟩
  | again _ _ first rest =>
    cases jobs with
    | force states values =>
      obtain ⟨x', rfl, suspensions⟩ := lawful.suspension_of_value values
      obtain ⟨hs', o', first', alike⟩ := first (M.forced states suspensions) stores
      obtain ⟨v', t', rfl, values, stores⟩ := alike.of_value
      obtain ⟨hs'', o'', rest', alike⟩ := rest (.force states values) stores
      exact ⟨hs' ++ hs'', o'', .again first' rest', alike⟩
  | suspensionStop _ stops first =>
    cases jobs with
    | force states values =>
      obtain ⟨x', rfl, suspensions⟩ := lawful.suspension_of_value values
      obtain ⟨hs', o', first', alike⟩ := first (M.forced states suspensions) stores
      exact ⟨hs', o', .suspensionStop first' (alike.stops stops), alike⟩
  | invoke _ perform =>
    cases jobs with
    | invoke contexts callees payloads =>
      obtain ⟨hs', o', perform', alike⟩ := perform
        (.perform contexts payloads (conducts _ payloads)) (stores.invoke callees payloads)
      refine ⟨hs', o', .invoke ?_, alike⟩
      rwa [← callees.targets]
  | reply settled =>
    cases jobs with
    | perform contexts payloads programs =>
      obtain ⟨⟨replies⟩⟩ := programs
      exact ⟨[], _, .reply (replies.settled settled), .ok replies stores⟩
  | @request y payload q s hs o _ resolve =>
    cases jobs with
    | @perform _ x' _ payload' _ _ contexts payloads programs =>
      obtain ⟨⟨replies⟩⟩ := programs
      cases replies with
      | error faults =>
      cases faults with
      | settled unsettled => exact absurd unsettled (Settled.not_tailCall _)
      | tailCall requests =>
        obtain ⟨hs', o', resolve', alike⟩ := resolve (.resolve contexts payloads requests)
          (stores.log (M.enter _ _) (M.enter' _ _))
        exact ⟨_, o', .request resolve', alike⟩
  | frame _ inside =>
    cases jobs with
    | perform contexts payloads programs =>
      obtain ⟨_ | ⟨allowed, calls⟩⟩ := programs
      obtain ⟨hs', o', inside', alike⟩ := inside
        (.apply (M.inFrame contexts allowed calls) calls.applied) stores
      exact ⟨hs', o', .frame inside', alike⟩
  | ask answered _ rest =>
    cases jobs with
    | perform contexts payloads programs =>
      cases programs with
      | resume | invoke => cases answered
      | ask construction programs =>
        rcases construction.construct_alike lawful stores with
          ⟨a, a', t, t', constructed, constructed', link, stores⟩ | ⟨_, _, _, halted, -, -⟩
        · cases answered.symm.trans constructed
          obtain ⟨hs', o', rest', alike⟩ := rest
            (.perform contexts payloads (programs _ _ link)) stores
          exact ⟨hs', o', .ask constructed' rest', alike⟩
        · cases answered.symm.trans halted
  | askHalt halted =>
    cases jobs with
    | perform contexts payloads programs =>
      cases programs with
      | resume | invoke =>
        cases halted
        exact ⟨[], _, .cut, .error stores⟩
      | ask construction programs =>
        rcases construction.construct_alike lawful stores with
          ⟨_, _, _, _, answered, -, -, -⟩ | ⟨_, _, _, halts, halts', stores⟩
        · cases halted.symm.trans answered
        · cases halted.symm.trans halts
          exact ⟨[], _, .askHalt halts', .error stores⟩
  | aside is_aside _ _ first rest =>
    cases jobs with
    | perform contexts payloads programs =>
      obtain ⟨allowed, _, _, _, is_aside', callees, payloads', programs⟩ :=
        programs.aside is_aside
      obtain ⟨hs', o', first', alike⟩ := first
        (.invoke (M.back allowed _ _) callees payloads') stores
      obtain ⟨replies, stores⟩ := alike
      obtain ⟨hs'', o'', rest', alike⟩ := rest
        (.perform contexts payloads (programs _ _ replies)) stores
      exact ⟨hs' ++ hs'', o'', .aside is_aside' first' rest', alike⟩
  | asideHalt is_aside _ first =>
    cases jobs with
    | perform contexts payloads programs =>
      obtain ⟨allowed, _, _, _, is_aside', callees, payloads', -⟩ := programs.aside is_aside
      obtain ⟨hs', o', first', alike⟩ := first
        (.invoke (M.back allowed _ _) callees payloads') stores
      cases alike with
      | error stores => exact ⟨hs', _, .asideHalt is_aside' first', .error stores⟩
  | refuse turn =>
    cases jobs with
    | resolve contexts payloads requests =>
      have turns := M.turn contexts payloads requests
      rw [turn] at turns
      obtain ⟨fault', turn', faults⟩ := turns.of_error
      exact ⟨[], _, .refuse turn', .ok (.error faults) stores⟩
  | next turn _ apply =>
    cases jobs with
    | resolve contexts payloads requests =>
      have turns := M.turn contexts payloads requests
      rw [turn] at turns
      obtain ⟨y', state', turn', states, contexts⟩ := turns.of_ok
      obtain ⟨hs', o', apply', alike⟩ := apply
        (.apply contexts (requests.requested states)) stores
      exact ⟨hs', o', .next turn' apply', alike⟩

end Evaluates

end Callable
