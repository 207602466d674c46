import Callable.Proofs.Constructions
import Callable.Proofs.Contents

/-! Arities. No run meets a closure with more bound arguments than parameters, whatever sequence
of calls a host makes: `Bodies.arity_respected`. A machine constructs closures for unsaturated
applications only, and these lack an argument that they need. -/

namespace Callable

open Machine

def Outcome.Meets {α : Type} (post : α → Prop) : Outcome α → Prop
  | .ok a _ => post a
  | .error .exhausted _ => True
  | .error (.defect _) _ => False

/-- From wherever it begins, the run meets no defect, its answer is in order, and all closures in
what it enters fit. -/
def Run.Yields {α : Type} (post : α → Prop) (x : Run α) : Prop := ∀ s,
  Outcome.Meets post (x s) ∧
    ∃ since, Run.journal x s = since ++ s.journal ∧ ∀ e ∈ since, Fitting e.values

namespace Run.Yields

variable {α β : Type} {x : Run α} {post : α → Prop} {post' : β → Prop}

theorem of_apart (h : ∀ s, Outcome.Meets post (x s) ∧ Run.journal x s = s.journal) :
    Yields post x :=
  fun s => ⟨(h s).1, [], (h s).2, fun _ mem => nomatch mem⟩

theorem pure {a : α} (h : post a) : Yields post (pure a) := of_apart fun _ => ⟨h, rfl⟩

theorem exhausted : Yields post (throw .exhausted) := of_apart fun _ => ⟨trivial, rfl⟩

theorem record {e : Entry} {post : Unit → Prop} (done : post ()) (h : Fitting e.values) :
    Yields post (Run.record e) :=
  fun _ => ⟨done, [e], rfl, List.forall_mem_singleton.mpr h⟩

theorem bind {f : α → Run β} (h : Yields post x) (onward : ∀ a, post a → Yields post' (f a)) :
    Yields post' (x >>= f) := by
  intro s
  obtain ⟨meets, since, journal, fitting⟩ := h s
  cases hx : x s with
  | error halt t =>
    rw [hx] at meets
    rw [journal_of_eq hx] at journal
    rw [bind_of_error hx]
    refine ⟨?_, since, (journal_of_eq (bind_of_error hx)).trans journal, fitting⟩
    cases halt with
    | exhausted => trivial
    | defect => exact meets
  | ok a t =>
    rw [hx] at meets
    rw [journal_of_eq hx] at journal
    obtain ⟨meets', later, journal', fitting'⟩ := onward a meets t
    rw [bind_of_ok hx]
    refine ⟨meets', later ++ since, ?_, List.forall_mem_append.mpr ⟨fitting', fitting⟩⟩
    rw [journal_of_eq (bind_of_ok hx), List.append_assoc, ← journal]
    exact journal'

theorem enter {e : Entry} {f : Unit → Run β} (h : Fitting e.values)
    (onward : Yields post' (f ())) : Yields post' (Run.record e >>= f) :=
  have entered : Yields (fun _ => True) (Run.record e) := .record trivial h
  entered.bind fun _ _ => onward

theorem emit {e : Event} {f : Unit → Run β} (onward : Yields post' (f ())) :
    Yields post' (Run.emit e >>= f) :=
  .enter fitting_nil onward

theorem newClosure {target : Target} {scope : Option (Scope Value)} {signature : Signature}
    {bound carried : List Value} (asserted : bound.length ≤ signature.arity)
    (fitting : Fitting (scope.elim [] Scope.values ++ bound ++ carried)) :
    Yields (fun f => (Value.closure f).Fitting)
      (Run.newClosure target scope signature bound carried) := by
  refine of_apart fun s => ?_
  have answered : Run.newClosure target scope signature bound carried s = _ :=
    newClosure_of_fits (Nat.not_lt.mpr asserted)
  rw [answered, journal_of_eq answered]
  simp only [fitting_append, and_assoc] at fitting
  exact ⟨Value.fitting_closure.mpr ⟨Closure.fits_iff.mpr asserted, fitting⟩, rfl⟩

theorem further {s t : Store} {a : α} (h : Yields post x) (run : x s = .ok a t)
    {base : List Entry}
    (earlier : ∃ since, s.journal = since ++ base ∧ ∀ e ∈ since, Fitting e.values) :
    post a ∧ ∃ since, t.journal = since ++ base ∧ ∀ e ∈ since, Fitting e.values := by
  obtain ⟨since, journal, fitting⟩ := earlier
  obtain ⟨meets, later, journal', fitting'⟩ := h s
  rw [run] at meets
  rw [journal_of_eq run, journal, ← List.append_assoc] at journal'
  exact ⟨meets, later ++ since, journal', List.forall_mem_append.mpr ⟨fitting', fitting⟩⟩

end Run.Yields

namespace Call

variable {call : Call} (h : Fitting call.values)

include h

theorem fitting_state : call.state.Fitting := by
  simp only [Call.values, fitting_cons, fitting_append] at h
  exact h.2.2.1

theorem fitting_caller : Fitting (call.caller.elim [] Caller.values) := by
  simp only [Call.values, fitting_cons, fitting_append] at h
  exact h.2.1

theorem fitting_closure : (Value.closure call.closure).Fitting := by
  simp only [Call.values, fitting_cons, fitting_append] at h
  exact h.1

theorem fitting_supplied : Fitting call.supplied := by
  have closure := Value.fitting_closure.mp (fitting_closure h)
  simp only [Call.values, fitting_cons, fitting_append] at h
  exact fitting_append.mpr ⟨closure.2.2.1, h.2.2.2⟩

theorem fitting_positional : Fitting call.positional :=
  (fitting_supplied h).of_subset (List.take_subset _ _)

theorem fitting_surplus : Fitting call.surplus := by
  have closure := Value.fitting_closure.mp (fitting_closure h)
  exact fitting_append.mpr ⟨closure.2.2.2, (fitting_supplied h).of_subset (List.drop_subset _ _)⟩

end Call

namespace Machine

def Forced : Except Fault (List Value) → Prop
  | .ok vs => Fitting vs
  | .error fault => Fitting fault.values

/-- Tasks in which all closures fit are evaluated without a defect. -/
structure Respects (eval : Evaluator) : Prop where
  dispatch : ∀ settings {call}, Fitting call.values →
    Run.Yields Reply.Fitting (eval (.dispatch settings call))
  invoke : ∀ {callee payload}, Fitting callee.values → Fitting payload.values →
    Run.Yields Reply.Fitting (eval (.invoke callee payload))

namespace Respects

variable {eval : Evaluator} {rounds : Nat} {settings : Settings} {state : Value}
  (respects : Respects eval)

include respects

theorem callLoop (fitting : state.Fitting) (performed : UInt64) {request : TailCall}
    (h : Fitting (Fault.tailCall request).values) :
    Run.Yields Reply.Fitting (callLoop eval settings state rounds performed request) := by
  induction rounds generalizing performed request with
  | zero => exact .exhausted
  | succ rounds ih =>
    cases exceeded : settings.exceeded? (performed + 1) with
    | some _ =>
      rw [callLoop_of_exceeded exceeded]
      exact .pure fitting_nil
    | none =>
      rw [callLoop_of_within exceeded]
      have next : Fitting (requested state request).values := by
        simp only [Fault.values, fitting_cons] at h
        simp only [requested, Call.values, Option.elim_none, List.nil_append, fitting_cons]
        exact ⟨h.1, fitting, h.2⟩
      refine .bind (respects.dispatch settings next) fun reply h => ?_
      rcases Settled.or_tailCall reply with settled | ⟨request, rfl⟩
      · rw [pursue_of_settled settled]
        exact .pure h
      · exact ih _ h

theorem settle (fitting : state.Fitting) {reply : Reply} (h : Reply.Fitting reply) :
    Run.Yields Reply.Fitting (settle eval rounds settings state reply) := by
  rcases Settled.or_tailCall reply with settled | ⟨request, rfl⟩
  · rw [settle_of_settled settled]
    exact .pure h
  · rw [settle_tailCall]
    exact .emit (respects.callLoop fitting 0 h)

theorem apply {call : Call} (h : Fitting call.values) :
    Run.Yields Reply.Fitting (apply eval rounds settings call) :=
  .bind (respects.dispatch settings h) fun _ => respects.settle (call.fitting_state h)

theorem applyInFrame {call : Call} (h : Fitting call.values) :
    Run.Yields Reply.Fitting (applyInFrame eval rounds settings call) := by
  cases strategy : call.closure.signature.strategy with
  | loop =>
    rw [applyInFrame_of_loop strategy]
    exact respects.apply h
  | direct =>
    rw [applyInFrame_of_direct strategy]
    exact respects.dispatch settings h

theorem resume {t : Suspension Value} (h : (Value.suspension t).Fitting)
    (fitting : state.Fitting) : Run.Yields Reply.Fitting (resume eval t state) := by
  refine respects.invoke (by simpa [Callee.values] using h) ?_
  simpa [Payload.ofSuspension, Payload.values, fitting] using h

theorem force {t : Suspension Value} (h : (Value.suspension t).Fitting)
    (fitting : state.Fitting) : Run.Yields Reply.Fitting (force eval rounds settings t state) :=
  .bind (respects.resume h fitting) fun _ => respects.settle fitting

theorem forceValue (fitting : state.Fitting) (steps : Nat) {v : Value} (h : v.Fitting) :
    Run.Yields Reply.Fitting (forceValue eval rounds settings state steps v) := by
  induction steps generalizing v with
  | zero =>
    cases v with
    | suspension t => exact .exhausted
    | _ => exact .pure (Reply.fitting_ok.mpr h)
  | succ steps ih =>
    cases v with
    | suspension t =>
      refine .bind (respects.force h fitting) fun reply h => ?_
      cases reply with
      | ok w => exact ih (Reply.fitting_ok.mp h)
      | error fault => exact .pure h
    | _ => exact .pure (Reply.fitting_ok.mpr h)

theorem forceArgument (fitting : state.Fitting) (p : Parameter) {v : Value} (h : v.Fitting) :
    Run.Yields Reply.Fitting (forceArgument eval rounds settings state p v) := by
  unfold Machine.forceArgument
  cases p.isSuspended with
  | true => exact .pure (Reply.fitting_ok.mpr h)
  | false => exact respects.forceValue fitting rounds h

theorem forceArguments (fitting : state.Fitting) (ps : List Parameter) {vs : List Value}
    (h : Fitting vs) :
    Run.Yields Forced (forceArguments eval rounds settings state ps vs) := by
  induction ps generalizing vs with
  | nil => cases vs <;> exact .pure h
  | cons p ps ih =>
    cases vs with
    | nil => exact .pure h
    | cons v vs =>
      obtain ⟨first, rest⟩ := fitting_cons.mp h
      refine .bind (respects.forceArgument fitting p first) fun answer h => ?_
      cases answer with
      | error fault => exact .pure h
      | ok w =>
        refine .bind (ih rest) fun forced h' => ?_
        cases forced with
        | error fault => exact .pure h'
        | ok ws => exact .pure (fitting_cons.mpr ⟨h w (List.mem_singleton_self w), h'⟩)

theorem applySurplus {call : Call} (h : Fitting call.values) {reply : Reply}
    (h' : Reply.Fitting reply) :
    Run.Yields Reply.Fitting (applySurplus eval rounds settings call reply) := by
  cases reply with
  | error fault => exact .pure h'
  | ok v =>
    refine .emit ?_
    cases v with
    | closure next =>
      refine respects.apply ?_
      simp only [Call.values, Option.elim_none, List.nil_append, fitting_cons]
      exact ⟨h' _ (List.mem_singleton_self _), call.fitting_state h, call.fitting_surplus h⟩
    | _ => exact .pure fitting_nil

theorem finish {call : Call} (h : Fitting call.values) {reply : Reply} (h' : Reply.Fitting reply) :
    Run.Yields Reply.Fitting (finish eval rounds settings call reply) := by
  by_cases left : call.surplus = []
  · rw [finish_of_exact left]
    exact .pure h'
  · rw [finish_of_excess left]
    exact .bind (respects.settle (call.fitting_state h) h') fun _ => respects.applySurplus h

omit respects in
theorem presentedCaller {call : Call} (h : Fitting call.values) :
    Run.Yields (fun caller => Fitting (caller.elim [] Caller.values)) (presentedCaller call) := by
  have fitting := call.fitting_caller h
  unfold Machine.presentedCaller
  cases given : call.caller with
  | some caller =>
    rw [given] at fitting
    exact .pure fitting
  | none =>
    cases call.closure.signature.passesCaller with
    | true => exact .emit (.of_apart fun _ => ⟨fitting_nil, rfl⟩)
    | false => exact .pure fitting_nil

theorem runBody {call : Call} (h : Fitting call.values) :
    Run.Yields Reply.Fitting (runBody eval rounds settings call) := by
  have state := call.fitting_state h
  refine .bind (respects.forceArguments state _ (call.fitting_positional h)) fun forced h' => ?_
  cases forced with
  | error fault => exact .pure h'
  | ok arguments =>
    refine .bind (presentedCaller h) fun caller h'' => ?_
    have payload :
        Fitting (Payload.ofClosure call.closure caller call.state arguments).values := by
      have closure := Value.fitting_closure.mp (call.fitting_closure h)
      simp only [Payload.ofClosure, Payload.values, fitting_append, fitting_cons]
      exact ⟨⟨closure.2.1, h''⟩, state, h'⟩
    have callee : Fitting (Callee.application call).values := h
    exact .bind (respects.invoke callee payload) fun _ => respects.finish h

omit respects in
theorem bindSupplied {call : Call} (unsaturated : call.isSaturated = false)
    (h : Fitting call.values) : Run.Yields Reply.Fitting (bindSupplied call) := by
  have room : call.supplied.length ≤ call.closure.signature.arity :=
    Nat.le_of_lt (Signature.lt_arity_of_not_isSaturatedBy unsaturated)
  have closure := Value.fitting_closure.mp (call.fitting_closure h)
  have bound := fitting_append.mpr ⟨closure.2.1, call.fitting_supplied h⟩
  exact .emit (.bind (.newClosure room (fitting_append.mpr ⟨bound, closure.2.2.2⟩)) fun f h =>
    .pure (Reply.fitting_ok.mpr h))

theorem step_dispatch {call : Call} (h : Fitting call.values) :
    Run.Yields Reply.Fitting (Machine.dispatch eval rounds settings call) := by
  have announced : Run.Yields (fun _ => True) (announce settings call) := by
    refine .enter h ?_
    cases settings.traceCalls with
    | true => exact .record trivial fitting_nil
    | false => exact .pure trivial
  refine .bind announced fun _ _ => ?_
  cases saturated : call.isSaturated with
  | true => exact respects.runBody h
  | false => exact bindSupplied saturated h

theorem answer {r : Request} (undispatched : r.Undispatched) (asserted : r.Asserted)
    (h : Fitting r.values) :
    Run.Yields (fun a => Fitting (r.answered a)) (answer eval rounds r) := by
  cases r with
  | newClosure target scope signature bound carried =>
    refine .bind (.newClosure asserted h) fun f fitting => ?_
    refine .enter fitting_nil (.pure ?_)
    simpa only [Request.answered, fitting_cons, fitting_nil, and_true] using fitting
  | newSuspension target scope =>
    refine .enter fitting_nil (.of_apart fun s => ⟨?_, rfl⟩)
    have fitting : Fitting [.suspension ⟨s.nextIdentity, target, scope⟩] := by
      simpa [Request.values] using h
    exact fitting
  | newScope parent bindings =>
    refine .enter fitting_nil (.of_apart fun s => ⟨?_, rfl⟩)
    have fitting : Fitting (Scope.within parent bindings).values := by
      rwa [Scope.values_within]
    exact fitting
  | newCaller scope name location =>
    exact .enter fitting_nil (.of_apart fun s => ⟨h, rfl⟩)
  | note => exact .record fitting_nil fitting_nil
  | apply | applyInFrame | force => exact undispatched.elim
  | resume t state =>
    simp only [Request.values, fitting_cons, fitting_nil, and_true] at h
    exact respects.resume h.1 h.2
  | invoke target payload =>
    have callee : Fitting (Callee.direct target).values := fitting_nil
    exact respects.invoke callee h

theorem perform {p : Program Reply} {given : List Value} (honest : p.Honest given)
    (h : Fitting given) : Run.Yields Reply.Fitting (p.perform (Machine.answer eval rounds)) := by
  induction p generalizing given with
  | done reply => exact .pure (honest.fitting h)
  | ask r next ih =>
    obtain ⟨undispatched, asserted, drawn, onward⟩ := honest
    refine .bind (respects.answer undispatched asserted (drawn.fitting h)) fun a h' => ?_
    exact ih a (onward a) (fitting_append.mpr ⟨h', h⟩)

end Respects

theorem respects_evaluate {bodies : Bodies} {own : List Value} (honest : bodies.Honest own)
    (fits : Fitting own) (fuel : Nat) : Respects (evaluate bodies fuel) := by
  induction fuel with
  | zero => exact ⟨fun _ _ _ => .exhausted, fun _ _ => .exhausted⟩
  | succ fuel ih =>
    refine ⟨fun settings call h => ih.step_dispatch h, fun {callee payload} h h' => ?_⟩
    have at_hand := fitting_append.mpr ⟨h', fits⟩
    exact .enter (fitting_append.mpr ⟨h, h'⟩) (ih.perform (honest _ _) at_hand)

end Machine

def Entrance.values : Entrance → List Value
  | .apply call | .applyInFrame call => call.values
  | .force t state => [.suspension t, state]

/-- Beginning in the store with the given values, a host comes to have those, in that store, by
constructions and calls of its choice. -/
inductive Dealt (bodies : Bodies) (given : List Value) (s : Store) :
    List Value → Store → Prop where
  | begin : Dealt bodies given s given s
  | construct {known t} {r : Request} {a : r.Answer} {u} (earlier : Dealt bodies given s known t)
      (constructs : r.Constructs) (asserted : r.Asserted) (drawn : Drawn known r.values)
      (answered : r.construct t = .ok a u) : Dealt bodies given s (r.answered a ++ known) u
  | enter {known t settings fuel rounds reply u} {entrance : Entrance}
      (earlier : Dealt bodies given s known t) (drawn : Drawn known entrance.values)
      (run : entrance.run settings (evaluate bodies fuel) rounds t = .ok reply u) :
      Dealt bodies given s (Reply.values reply ++ known) u
  | execute {known t settings state arguments fuel rounds answer u} {f : Closure Value}
      (earlier : Dealt bodies given s known t)
      (drawn : Drawn known (.closure f :: state :: arguments))
      (run : f.execute (evaluate bodies fuel) rounds ⟨.currying settings, state⟩ arguments t =
        .ok answer u) :
      Dealt bodies given s (HostFault.told answer ++ known) u

section

variable {bodies : Bodies} {own : List Value} (honest : bodies.Honest own) (fits : Fitting own)

include honest fits

theorem Entrance.yields {settings : Settings} {entrance : Entrance} {fuel rounds : Nat}
    (h : Fitting entrance.values) :
    Run.Yields Reply.Fitting (entrance.run settings (evaluate bodies fuel) rounds) := by
  have respects := respects_evaluate honest fits fuel
  cases entrance with
  | apply call => exact respects.apply h
  | applyInFrame call => exact respects.applyInFrame h
  | force t state =>
    simp only [values, fitting_cons, fitting_nil, and_true] at h
    exact respects.force h.1 h.2

theorem Closure.execute_yields {settings : Settings} {f : Closure Value} {state : Value}
    {arguments : List Value} {fuel rounds : Nat}
    (h : Fitting (.closure f :: state :: arguments)) :
    Run.Yields (fun answer => Fitting (HostFault.told answer))
      (f.execute (evaluate bodies fuel) rounds ⟨.currying settings, state⟩ arguments) := by
  refine .emit (.bind ((respects_evaluate honest fits fuel).apply h) fun reply h => ?_)
  cases reply <;> exact .pure h

theorem Request.construct_yields {r : Request} (constructs : r.Constructs) (asserted : r.Asserted)
    (h : Fitting r.values) : Run.Yields (fun a => Fitting (r.answered a)) r.construct := by
  have undispatched : r.Undispatched := by
    cases r with
    | apply | applyInFrame | force | resume | invoke => exact constructs.elim
    | _ => trivial
  have answers : Run.Yields _ (answer (evaluate bodies 0) 0 r) :=
    (respects_evaluate honest fits 0).answer undispatched asserted h
  rwa [answer_of_constructs constructs] at answers

theorem Dealt.fitting {given known : List Value} {s t : Store} (h : Fitting given)
    (dealt : Dealt bodies given s known t) : Fitting known ∧
      ∃ since, t.journal = since ++ s.journal ∧ ∀ e ∈ since, Fitting e.values := by
  induction dealt with
  | begin => exact ⟨h, [], rfl, fun _ mem => nomatch mem⟩
  | construct _ constructs asserted drawn answered ih =>
    obtain ⟨known, entries⟩ := ih
    have yields := Request.construct_yields honest fits constructs asserted (drawn.fitting known)
    obtain ⟨answer, entries⟩ := yields.further answered entries
    exact ⟨fitting_append.mpr ⟨answer, known⟩, entries⟩
  | enter _ drawn run ih =>
    obtain ⟨known, entries⟩ := ih
    obtain ⟨reply, entries⟩ :=
      (Entrance.yields honest fits (drawn.fitting known)).further run entries
    exact ⟨fitting_append.mpr ⟨reply, known⟩, entries⟩
  | execute _ drawn run ih =>
    obtain ⟨known, entries⟩ := ih
    obtain ⟨told, entries⟩ :=
      (Closure.execute_yields honest fits (drawn.fitting known)).further run entries
    exact ⟨fitting_append.mpr ⟨told, known⟩, entries⟩

end

/-- What a call that lacks arguments makes of its closure. -/
structure Call.Binds (call : Call) (f : Closure Value) : Prop where
  missing : ∃ p ∈ call.closure.signature.parameters.drop f.bound.length, p.hasDefault = false
  bound : f.bound = call.closure.bound ++ call.arguments
  room : 1 ≤ f.remainingArity
  target : f.target = call.closure.target
  scope : f.scope = call.closure.scope
  signature : f.signature = call.closure.signature
  carried : f.carried = call.closure.carried

theorem Call.binds_rebound {call : Call} (unsaturated : call.isSaturated = false)
    (identity : Nat) : call.Binds (call.rebound identity) where
  missing := by
    obtain ⟨p, mem, required⟩ := List.all_eq_false.mp unsaturated
    exact ⟨p, mem, by simpa using required⟩
  bound := rfl
  room := Nat.sub_pos_of_lt (Signature.lt_arity_of_not_isSaturatedBy unsaturated)
  target := rfl
  scope := rfl
  signature := rfl
  carried := rfl

namespace Bodies

/-- With bodies that make up no closures, but may have some of their own, no sequence of calls of a
host meets a defect, or a closure that has bound more arguments than it has parameters: not among
what the host comes to have, not in what is entered, and not in the replies of bodies. A machine
constructs closures for the calls that lack arguments, one for each, like the closure that is called
but for what is supplied. -/
theorem arity_respected {bodies : Bodies} {own : List Value} (honest : bodies.Honest own)
    (fits : Fitting own) :
    (∀ given s known t, Fitting given → Dealt bodies given s known t →
      Fitting known ∧
      (∃ since, t.journal = since ++ s.journal ∧ ∀ e ∈ since, Fitting e.values) ∧
      (∀ settings (entrance : Entrance) fuel rounds, Drawn known entrance.values →
        Run.Yields Reply.Fitting (entrance.run settings (evaluate bodies fuel) rounds)) ∧
      ∀ settings (f : Closure Value) state arguments fuel rounds,
        Drawn known (.closure f :: state :: arguments) →
        Run.Yields (fun answer => Fitting (HostFault.told answer))
          (f.execute (evaluate bodies fuel) rounds ⟨.currying settings, state⟩ arguments)) ∧
    (∀ fuel callee payload s reply t, Fitting callee.values → Fitting payload.values →
      evaluate bodies fuel (.invoke callee payload) s = .ok reply t →
      Reply.Fitting reply) ∧
    (∀ eval rounds settings call s, call.isSaturated = false → ∃ f t,
      dispatch eval rounds settings call s = .ok (.ok (.closure f)) t ∧ call.Binds f ∧
      f.identity = s.nextIdentity ∧ t.nextIdentity = s.nextIdentity + 1) ∧
    ∀ settings (entrance : Entrance) s reply t,
      Ends bodies (fun eval rounds => entrance.run settings eval rounds) s (.ok reply t) →
      ∃ since, t.journal = since ++ s.journal ∧
        t.nextIdentity = s.nextIdentity + since.countP Entry.lacksArguments +
          since.countP (Entry.creates .closure) + since.countP (Entry.creates .suspension) := by
  refine ⟨fun given s known t fitting dealt => ?_, fun fuel callee payload s reply t h h' run => ?_,
    fun eval rounds settings call s unsaturated => ?_, fun settings entrance s reply t ends => ?_⟩
  · obtain ⟨knows, entries⟩ := dealt.fitting honest fits fitting
    exact ⟨knows, entries,
      fun settings entrance fuel rounds drawn => Entrance.yields honest fits (drawn.fitting knows),
      fun settings f state arguments fuel rounds drawn =>
        Closure.execute_yields honest fits (drawn.fitting knows)⟩
  · have meets := ((respects_evaluate honest fits fuel).invoke h h' s).1
    rw [run] at meets
    exact meets
  · have binds : dispatch eval rounds settings call s = _ :=
      (dispatch_of_unsaturated unsaturated).trans (bindSupplied_of_unsaturated unsaturated)
    exact ⟨_, _, binds, call.binds_rebound unsaturated _, rfl, rfl⟩
  · obtain ⟨since, entered⟩ := entered honest.undispatched settings entrance ends
    refine ⟨since, entered.journal, ?_⟩
    have none_required : since.countP (Entry.requires .suspension) = 0 := by
      simp [Entry.requires]
    rw [entered.identities, constructed, constructed, none_required]
    show _ + (_ + since.countP Entry.lacksArguments) + _ = _
    omega

theorem furnishing_honest : furnishing.Honest [] := by
  -- the first two bodies make the closures that they ask tail calls of
  have makes (f : Closure Value) (given : List Value) :
      Drawn ([.closure f] ++ given) (Reply.values (.error (.tailCall ⟨f, []⟩))) :=
    .of_subset (List.subset_append_left _ _)
  rintro (_ | _ | _) payload
  · exact ⟨trivial, Nat.zero_le _, .of_subset (List.nil_subset _), fun f => makes f _⟩
  · exact ⟨trivial, Nat.zero_le _, .of_subset (List.nil_subset _), fun f => makes f _⟩
  · exact .of_subset (by simp [Reply.values, Payload.values])

theorem furnished_fitting : Fitting furnished.values := by
  have unit : Value.unit.Fitting := Value.fitting_iff.mpr ⟨fun _ e => (nomatch e), fitting_nil⟩
  simp [Call.values, furnished, unit, Closure.fits_iff]

theorem furnished_respected : furnishing.Honest [] ∧ Fitting [] ∧ Fitting furnished.values ∧ ∃ f t,
    Dealt furnishing furnished.values {} (.closure f :: furnished.values) t ∧
    f.Fits ∧ f.remainingArity = 1 := by
  have dealt : Dealt furnishing furnished.values {} (Reply.values (.ok (.closure _)) ++ _) _ :=
    .enter .begin (.of_subset (List.Subset.refl _))
      (show (Entrance.apply furnished).run {} (evaluate furnishing 9) 9 {} = .ok _ _ from rfl)
  have fitting :=
    ((arity_respected furnishing_honest fitting_nil).1 _ _ _ _ furnished_fitting dealt).1
  refine ⟨furnishing_honest, fitting_nil, furnished_fitting, _, _, dealt, ?_, rfl⟩
  exact fitting _ (List.mem_cons_self ..) _ .here

end Bodies

end Callable
