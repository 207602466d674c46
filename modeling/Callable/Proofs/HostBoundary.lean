import Callable.Proofs.LoopLimit.Chain
import Callable.Proofs.Provenance

/-! What reaches a host. The value of an application comes, as it is, from one body: the one that
the run rests on in its last position, after the tail calls that are performed and the surplus that
is applied. So a host is handed a suspension exactly if that body answers one, although the member
`equals` takes none from a host. -/

namespace Callable

namespace Machine

/-- The parts of a run whose value is that of a part of theirs. -/
inductive Stage where
  | apply (call : Call)
  | dispatch (call : Call)
  | loop (state : Value) (performed : UInt64) (request : TailCall)

def Stage.run (settings : Settings) (eval : Evaluator) (rounds : Nat) : Stage → Run Reply
  | .apply call => Machine.apply eval rounds settings call
  | .dispatch call => eval (.dispatch settings call)
  | .loop state performed request => callLoop eval settings state rounds performed request

/-- An application that comes to its body: the payload of it, and the store in which it is
invoked. -/
structure Readies (bodies : Bodies) (settings : Settings) (call : Call) (s : Store)
    (payload : Payload) (u : Store) : Prop where
  saturated : call.isSaturated = true
  readied : ∃ arguments caller t, payload = .ofClosure call.closure caller call.state arguments ∧
    Ends bodies (fun eval rounds => forceArguments eval rounds settings call.state
      call.closure.signature.parameters call.positional)
      (s.log ((Policy.loops settings).announce call)) (.ok (.ok arguments) t) ∧
    presentedCaller call t = .ok caller u

/-- The application whose body the value of a part comes from. -/
inductive Rests (bodies : Bodies) (settings : Settings) :
    Stage → Store → Call → Payload → Store → Prop where
  | body {call s payload u} (readies : Readies bodies settings call s payload u)
      (none_left : call.surplus = []) :
      Rests bodies settings (.dispatch call) s call payload u
  | surplus {call s payload u next w call' payload' u'}
      (readies : Readies bodies settings call s payload u) (left : call.surplus ≠ [])
      (finished : Ends bodies (finishedReply · · settings call payload) u
        (.ok (.ok (.closure next)) w))
      (rest : Rests bodies settings (.apply ⟨next, none, call.state, call.surplus⟩)
        (w.log [.event (.surplus call.closure.name call.surplus.length)]) call' payload' u') :
      Rests bodies settings (.dispatch call) s call' payload' u'
  | dispatched {call s call' payload u}
      (rest : Rests bodies settings (.dispatch call) s call' payload u) :
      Rests bodies settings (.apply call) s call' payload u
  | entered {call s request t call' payload u}
      (asked : Ends bodies (fun eval _ => eval (.dispatch settings call)) s
        (.ok (.error (.tailCall request)) t))
      (rest : Rests bodies settings (.loop call.state 0 request)
        (t.log [.event (.callLoop request.closure.name)]) call' payload u) :
      Rests bodies settings (.apply call) s call' payload u
  | performed {state performed request s call payload u}
      (within : settings.exceeded? (performed + 1) = none)
      (rest : Rests bodies settings (.dispatch (requested state request)) s call payload u) :
      Rests bodies settings (.loop state performed request) s call payload u
  | next {state performed request s next t call payload u}
      (within : settings.exceeded? (performed + 1) = none)
      (answered : Performs bodies settings state request s (.ok (.error (.tailCall next)) t))
      (rest : Rests bodies settings (.loop state (performed + 1) next) t call payload u) :
      Rests bodies settings (.loop state performed request) s call payload u

variable {bodies : Bodies} {settings : Settings} {call : Call} {payload : Payload} {v : Value}
  {s t u : Store}

theorem finishedReply_le {eval eval' : Evaluator} {m n : Nat}
    (le : ∀ task, Run.Le (eval task) (eval' task)) (h : m ≤ n) (settings : Settings) (call : Call)
    (payload : Payload) :
    Run.Le (finishedReply eval m settings call payload)
      (finishedReply eval' n settings call payload) := by
  refine .bind (le _) fun reply => ?_
  split
  · exact .refl _
  · exact settle_le le h _ _ _

namespace Readies

variable {o : Outcome Reply}

theorem ends_exact (readies : Readies bodies settings call s payload u)
    (none_left : call.surplus = [])
    (ends : Ends bodies (fun eval _ => eval (.invoke (.application call) payload)) u o) :
    Ends bodies (fun eval _ => eval (.dispatch settings call)) s o := by
  obtain ⟨saturated, arguments, caller, t, rfl, ⟨m, forced⟩, presented⟩ := readies
  obtain ⟨n, invoked⟩ := ends
  refine .step ⟨max m n, fun fuel enough => ?_⟩
  refine (dispatch_of_presented saturated (forced fuel (by omega)) presented).trans ?_
  rw [finish_of_exact none_left, bind_pure]
  exact invoked fuel (by omega)

theorem ends_excess {reply : Reply} {w : Store}
    (readies : Readies bodies settings call s payload u) (left : call.surplus ≠ [])
    (finished : Ends bodies (finishedReply · · settings call payload) u (.ok reply w))
    (ends : Ends bodies (applySurplus · · settings call reply) w o) :
    Ends bodies (fun eval _ => eval (.dispatch settings call)) s o := by
  obtain ⟨saturated, arguments, caller, t, rfl, ⟨m, forced⟩, presented⟩ := readies
  obtain ⟨n, both⟩ := finished.bind (f := fun reply eval rounds =>
    applySurplus eval rounds settings call reply) ends
  refine .step ⟨max m n, fun fuel enough => ?_⟩
  exact (dispatch_of_left saturated (forced fuel (by omega)) presented left).trans
    (both fuel (by omega))

end Readies

theorem Rests.ends {stage : Stage} (rests : Rests bodies settings stage s call payload u)
    (ends : Ends bodies (fun eval _ => eval (.invoke (.application call) payload)) u
      (.ok (.ok v) t)) :
    Ends bodies (fun eval rounds => stage.run settings eval rounds) s (.ok (.ok v) t) := by
  have finished := Outcome.finished_ok (Except.ok v : Reply) t
  induction rests with
  | body readies none_left => exact readies.ends_exact none_left ends
  | surplus readies left finished _ ih =>
    have applied := ih ends
    exact readies.ends_excess left finished (applied.congr fun _ _ => rfl)
  | dispatched _ ih => exact (ih ends).bind (.constant rfl)
  | entered asked _ ih =>
    have looped := ih ends
    exact asked.bind (looped.congr fun _ _ => rfl)
  | performed within _ ih =>
    exact (callLoop_ends_iff finished).mpr
      (.last within (ih ends) (Outcome.resolved_ok (.ok v) t))
  | next within answered _ ih =>
    exact (callLoop_ends_iff finished).mpr
      (.next within answered ((callLoop_ends_iff finished).mp (ih ends)))

section

variable {fuel : Nat}

theorem dispatch_value
    (run : dispatch (evaluate bodies fuel) fuel settings call s = .ok (.ok v) t)
    (other : v.closure? = none) :
    ∃ payload u, Readies bodies settings call s payload u ∧
      (call.surplus = [] ∧
        evaluate bodies fuel (.invoke (.application call) payload) u = .ok (.ok v) t ∨
      call.surplus ≠ [] ∧ ∃ next w,
        finishedReply (evaluate bodies fuel) fuel settings call payload u =
          .ok (.ok (.closure next)) w ∧
        apply (evaluate bodies fuel) fuel settings ⟨next, none, call.state, call.surplus⟩
          (w.log [.event (.surplus call.closure.name call.surplus.length)]) = .ok (.ok v) t) := by
  cases saturated : call.isSaturated with
  | false =>
    rw [dispatch_of_unsaturated saturated, bindSupplied_of_unsaturated saturated] at run
    cases run
    cases other
  | true =>
    cases forced : forceArguments (evaluate bodies fuel) fuel settings call.state
        call.closure.signature.parameters call.positional
        (s.log ((Policy.loops settings).announce call)) with
    | error h w =>
      rw [dispatch_of_saturated saturated] at run
      cases (Run.bind_of_error (forceOnward_of_halt forced)).symm.trans run
    | ok reply w =>
      cases reply with
      | error fault =>
        have settled : Settled (.error fault : Reply) := (forceArguments_settled forced).of_error
        rw [dispatch_of_saturated saturated] at run
        replace run := (Run.bind_of_ok (forceOnward_of_fault forced)).symm.trans run
        rw [finish_of_fault settled] at run
        cases run
      | ok arguments =>
        obtain ⟨caller, u, presented⟩ := presentedCaller_ok call w
        have forced' : Ends bodies (fun eval rounds => forceArguments eval rounds settings
            call.state call.closure.signature.parameters call.positional) _ _ :=
          .of_fuel (fun le => forceArguments_le (evaluate_le bodies le) le _ _ _ _) forced trivial
        refine ⟨_, u, ⟨saturated, arguments, caller, w, rfl, forced', presented⟩, ?_⟩
        by_cases left : call.surplus = []
        · rw [dispatch_of_presented saturated forced presented, finish_of_exact left,
            bind_pure] at run
          exact .inl ⟨left, run⟩
        · rw [dispatch_of_left saturated forced presented left] at run
          obtain ⟨reply, x, finished, run⟩ := Run.bind_eq_ok.mp run
          cases reply with
          | error fault => cases run
          | ok result =>
            cases result with
            | closure next => exact .inr ⟨left, next, x, finished, run⟩
            | _ => cases run

def FromBody (bodies : Bodies) (settings : Settings) (stage : Stage) (s : Store) (v : Value)
    (t : Store) : Prop :=
  ∃ call payload u, Rests bodies settings stage s call payload u ∧
    Ends bodies (fun eval _ => eval (.invoke (.application call) payload)) u (.ok (.ok v) t)

variable (bodies settings fuel) in
def DispatchesFromBodies : Prop :=
  ∀ {call s v t}, evaluate bodies fuel (.dispatch settings call) s = .ok (.ok v) t →
    v.closure? = none → FromBody bodies settings (.dispatch call) s v t

theorem DispatchesFromBodies.callLoop (dispatches : DispatchesFromBodies bodies settings fuel)
    {state : Value} {rounds : Nat} {performed : UInt64} {request : TailCall}
    (run : Machine.callLoop (evaluate bodies fuel) settings state rounds performed request s =
      .ok (.ok v) t) (other : v.closure? = none) :
    FromBody bodies settings (.loop state performed request) s v t := by
  induction rounds generalizing performed request s with
  | zero => cases run
  | succ rounds ih =>
    cases exceeded : settings.exceeded? (performed + 1) with
    | some limit =>
      rw [callLoop_of_exceeded exceeded] at run
      cases run
    | none =>
      rw [callLoop_of_within exceeded] at run
      obtain ⟨reply, w, once, run⟩ := Run.bind_eq_ok.mp run
      rcases Settled.or_tailCall reply with settled | ⟨next, rfl⟩
      · rw [pursue_of_settled settled] at run
        cases run
        obtain ⟨call, payload, u, rests, ends⟩ := dispatches once other
        exact ⟨call, payload, u, .performed exceeded rests, ends⟩
      · obtain ⟨call, payload, u, rests, ends⟩ := ih run
        exact ⟨call, payload, u, .next exceeded (performs_of_run fuel once trivial) rests, ends⟩

theorem DispatchesFromBodies.apply (dispatches : DispatchesFromBodies bodies settings fuel)
    {rounds : Nat} (run : Machine.apply (evaluate bodies fuel) rounds settings call s =
      .ok (.ok v) t) (other : v.closure? = none) :
    FromBody bodies settings (.apply call) s v t := by
  obtain ⟨reply, w, once, run⟩ := Run.bind_eq_ok.mp run
  rcases Settled.or_tailCall reply with settled | ⟨request, rfl⟩
  · rw [settle_of_settled settled] at run
    cases run
    obtain ⟨call', payload, u, rests, ends⟩ := dispatches once other
    exact ⟨call', payload, u, .dispatched rests, ends⟩
  · rw [settle_tailCall] at run
    have asked : Ends bodies (fun eval _ => eval (.dispatch settings call)) s _ :=
      .of_fuel (fun le => evaluate_le bodies le _) once trivial
    obtain ⟨call', payload, u, rests, ends⟩ := dispatches.callLoop run other
    exact ⟨call', payload, u, .entered asked rests, ends⟩

theorem dispatches_fromBodies : DispatchesFromBodies bodies settings fuel := by
  induction fuel with
  | zero => exact fun run => nomatch run
  | succ fuel ih =>
    intro call s v t run other
    obtain ⟨payload, u, readies, ⟨none_left, invoked⟩ | ⟨left, next, w, finished, applied⟩⟩ :=
      dispatch_value run other
    · exact ⟨call, payload, u, .body readies none_left,
        .of_fuel (fun le => evaluate_le bodies le _) invoked trivial⟩
    · obtain ⟨call', payload', u', rests, ends⟩ := ih.apply applied other
      have finished : Ends bodies (finishedReply · · settings call payload) u _ :=
        .of_fuel (fun le => finishedReply_le (evaluate_le bodies le) le _ _ _) finished trivial
      exact ⟨call', payload', u', .surplus readies left finished rests, ends⟩

end

theorem apply_value_iff (other : v.closure? = none) :
    Ends bodies (apply · · settings call) s (.ok (.ok v) t) ↔
      FromBody bodies settings (.apply call) s v t :=
  ⟨fun ⟨enough, run⟩ => dispatches_fromBodies.apply (run enough (Nat.le_refl _)) other,
    fun ⟨_, _, _, rests, ends⟩ => rests.ends ends⟩

end Machine

namespace Closure

open Machine

variable {bodies : Bodies} {settings : Settings} {state : Value} {f : Closure Value}
  {arguments : List Value} {v : Value} {s t : Store}

theorem execute_ends_ok_iff :
    Ends bodies (f.execute · · ⟨.currying settings, state⟩ arguments) s (.ok (.ok v) t) ↔
      Ends bodies (apply · · settings ⟨f, none, state, arguments⟩)
        (s.log [.event (.foreignExecute f.name arguments.length)]) (.ok (.ok v) t) := by
  constructor
  · rintro ⟨enough, run⟩
    exact ⟨enough, fun fuel more => Outcome.told_eq_ok.mp (execute_eq.symm.trans (run fuel more))⟩
  · rintro ⟨enough, run⟩
    exact ⟨enough, fun fuel more => execute_eq.trans (congrArg Outcome.told (run fuel more))⟩

end Closure

namespace Bodies

open Machine

/-- A host is handed a suspension exactly if the body that the run rests on answers it; for the
member `equals` a suspension is refused. -/
theorem suspension_crosses_iff (bodies : Bodies) (settings : Settings) (state : Value)
    (f : Closure Value) (arguments : List Value) (x : Suspension Value) (s t : Store) :
    (Ends bodies (f.execute · · ⟨.currying settings, state⟩ arguments) s
        (.ok (.ok (.suspension x)) t) ↔
      ∃ call payload u, Rests bodies settings (.apply ⟨f, none, state, arguments⟩)
          (s.log [.event (.foreignExecute f.name arguments.length)]) call payload u ∧
        Ends bodies (fun eval _ => eval (.invoke (.application call) payload)) u
          (.ok (.ok (.suspension x)) t)) ∧
    f.invokeMember "equals" [.suspension x] = .error (.unsupportedType "Thunk") := by
  refine ⟨?_, rfl⟩
  rw [Closure.execute_ends_ok_iff]
  exact apply_value_iff rfl

def delaying : Bodies
  | 0, _ => .done (.ok (.integer 1))
  | _ + 1, _ => .ask (.newSuspension ⟨"later", 0, none⟩ .root) fun x => .done (.ok (.suspension x))

def delayer : Closure Value :=
  ⟨0, ⟨"lazy", 1, none⟩, none, .parameterless .direct .withheld, [], []⟩

theorem delayer_crosses : ¬ ∀ (bodies : Bodies) (settings : Settings) (state : Value)
    (f : Closure Value) (arguments : List Value) (v : Value) (s t : Store),
    Ends bodies (f.execute · · ⟨.currying settings, state⟩ arguments) s (.ok (.ok v) t) →
      ∀ x, v ≠ .suspension x := by
  intro confined
  have ends : Ends delaying (delayer.execute · · ⟨.currying {}, .unit⟩ []) { nextIdentity := 1 }
      (.ok (.ok (.suspension ⟨1, ⟨"later", 0, none⟩, .root⟩)) _) :=
    Closure.execute_ends_ok_iff.mpr (.of_apply 3 rfl trivial)
  exact confined _ _ _ _ _ _ _ _ ends _ rfl

end Bodies

end Callable
