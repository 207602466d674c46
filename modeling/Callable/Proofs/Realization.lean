import Callable.Proofs.Derivation

/-! Whatever is derived and finished happens on the machine. The reply of a job before anything
has resolved its tail calls, gone on with in the context of the job, comes out as derived. -/

namespace Callable

namespace Ends

variable {α β : Type} {bodies : Bodies} {x y : Evaluator → Nat → Run α} {s t : Store}

theorem congr {o : Outcome α} (h : Ends bodies x s o)
    (same : ∀ eval rounds, y eval rounds t = x eval rounds s) : Ends bodies y t o := by
  obtain ⟨enough, h⟩ := h
  exact ⟨enough, fun fuel more => (same _ _).trans (h fuel more)⟩

end Ends

namespace Machine

section

variable (eval : Evaluator) (rounds : Nat) (settings : Settings)

def goOn : Option Loop → Reply → Run Reply
  | none, reply => pure reply
  | some ⟨state, none⟩, reply => settle eval rounds settings state reply
  | some ⟨state, some performed⟩, reply => pursue eval rounds settings state performed reply

def performRequest : Option Loop → TailCall → Run Reply
  | none, request => pure (.error (.tailCall request))
  | some loop, request =>
    callLoop eval settings loop.state rounds (loop.performed.getD 0) request

variable {eval rounds settings}

theorem goOn_of_settled {reply : Reply} (settled : Settled reply)
    (x : (Policy.loops settings).Context) : goOn eval rounds settings x reply = pure reply := by
  match x with
  | none => rfl
  | some ⟨state, none⟩ => exact settle_of_settled settled
  | some ⟨state, some performed⟩ => exact pursue_of_settled settled

theorem goOn_tailCall (x : (Policy.loops settings).Context) (request : TailCall) (s : Store) :
    goOn eval rounds settings x (.error (.tailCall request)) s =
      performRequest eval rounds settings x request
        (s.log ((Policy.loops settings).enter x request)) := by
  match x with
  | none => rfl
  | some ⟨state, none⟩ => rfl
  | some ⟨state, some performed⟩ => rfl

end

variable {settings : Settings} {c : Conduct} {s t : Store} {o : Outcome Reply}

/-- A job that comes back with a reply, from which the machine goes on to the outcome in the
context of the job; or one that halts. -/
inductive Realized (settings : Settings) (c : Conduct) (x : (Policy.loops settings).Context)
    (job : Evaluator → Nat → Run Reply) (s : Store) : Outcome Reply → Prop where
  | halted {h t} (ends : Ends (c.bodies settings) job s (.error h t)) :
      Realized settings c x job s (.error h t)
  | replied {reply t o} (ends : Ends (c.bodies settings) job s (.ok reply t))
      (goes_on : Ends (c.bodies settings) (goOn · · settings x reply) t o) :
      Realized settings c x job s o

namespace Realized

variable {x : (Policy.loops settings).Context} {job job' : Evaluator → Nat → Run Reply}

theorem lift (h : Realized settings c x job s o)
    (reduce : ∀ o', Ends (c.bodies settings) job s o' → Ends (c.bodies settings) job' t o') :
    Realized settings c x job' t o := by
  cases h with
  | halted ends => exact .halted (reduce _ ends)
  | replied ends goes_on => exact .replied (reduce _ ends) goes_on

theorem of_resolved (ends : Ends (c.bodies settings) job s o) (resolved : o.Resolved) :
    Realized settings c x job s o := by
  cases o with
  | error halt t => exact .halted ends
  | ok reply t =>
    have settled : Settled reply := fun request e => resolved request t (e ▸ rfl)
    exact .replied ends ⟨0, fun _ _ => congrFun (goOn_of_settled settled x) t⟩

theorem of_back (h : Realized settings c (Policy.loops settings).back job s o) :
    Ends (c.bodies settings) job s o := by
  cases h with
  | halted ends => exact ends
  | replied ends goes_on => exact ends.of_pure goes_on

theorem settle {state : Value}
    (h : Realized settings c ((Policy.loops settings).own state) job s o) :
    Ends (c.bodies settings)
      (fun eval rounds => job eval rounds >>= settle eval rounds settings state) s o := by
  cases h with
  | halted ends => exact ends.bind_error
  | replied ends goes_on => exact ends.bind goes_on

theorem apply {call : Call} (h : Realized settings c ((Policy.loops settings).own call.state)
      (fun eval _ => eval (.dispatch settings call)) s o) :
    Ends (c.bodies settings) (Machine.apply · · settings call) s o :=
  h.settle

theorem force {x : Suspension Value} {state : Value}
    (h : Realized settings c ((Policy.loops settings).own state)
      (fun eval _ => eval (.invoke (.suspension x) (.ofSuspension x state))) s o) :
    Ends (c.bodies settings) (Machine.force · · settings x state) s o :=
  h.settle

end Realized

section

variable {bodies : Bodies}

theorem callLoop_ends {state : Value} {performed : UInt64} {request : TailCall}
    (within : settings.exceeded? (performed + 1) = none)
    (h : Realized settings c (some ⟨state, some (performed + 1)⟩)
      (fun eval _ => eval (.dispatch settings (requested state request))) s o)
    (finished : o.Finished) :
    Ends (c.bodies settings)
      (fun eval rounds => callLoop eval settings state rounds performed request) s o := by
  have le {m n} (h : m ≤ n) := callLoop_le (evaluate_le (c.bodies settings) h) h settings state
    performed request
  cases h with
  | @halted e t ends =>
    obtain ⟨m, hm⟩ := ends
    have once : callLoop (evaluate (c.bodies settings) (m + 1)) settings state (m + 1) performed
        request s = .error e t := by
      rw [callLoop_of_within within]
      exact Run.bind_of_error (hm (m + 1) (by omega))
    exact .of_fuel le once finished
  | @replied reply t _ ends goes_on =>
    obtain ⟨m, hm⟩ := ends
    obtain ⟨n, hn⟩ := goes_on
    have pursued : pursue (evaluate (c.bodies settings) (max m n + 1)) (max m n) settings state
        (performed + 1) reply t = o :=
      (pursue_le (evaluate_le _ (Nat.le_succ _)) (Nat.le_refl _) settings state _ _).eq_of_finished
        (hn (max m n) (by omega)) finished
    have once : callLoop (evaluate (c.bodies settings) (max m n + 1)) settings state
        (max m n + 1) performed request s = o := by
      rw [callLoop_of_within within]
      exact (Run.bind_of_ok (hm (max m n + 1) (by omega))).trans pursued
    exact .of_fuel le once finished

theorem forceValue_ends {x : Suspension Value} {state v : Value}
    (first : Ends bodies (force · · settings x state) s (.ok (.ok v) t))
    (rest : Ends bodies (fun eval rounds => forceValue eval rounds settings state rounds v) t o)
    (finished : o.Finished) :
    Ends bodies (fun eval rounds => forceValue eval rounds settings state rounds (.suspension x))
      s o := by
  obtain ⟨m, hm⟩ := first
  obtain ⟨n, hn⟩ := rest
  have onward : forceValue (evaluate bodies (max m n + 1)) (max m n + 1) settings state
      (max m n) v t = o :=
    (forceValue_le (evaluate_le _ (Nat.le_succ _)) (Nat.le_succ _) settings state
      (Nat.le_refl _) v).eq_of_finished (hn (max m n) (by omega)) finished
  have once : forceValue (evaluate bodies (max m n + 1)) (max m n + 1) settings state
      (max m n + 1) (.suspension x) s = o :=
    (Run.bind_of_ok (hm (max m n + 1) (by omega))).trans onward
  exact .of_fuel (fun h => forceValue_le (evaluate_le _ h) h settings state h _) once finished

theorem forceValue_stops {x : Suspension Value} {state : Value}
    (first : Ends bodies (force · · settings x state) s o) (stops : o.Stops)
    (finished : o.Finished) :
    Ends bodies (fun eval rounds => forceValue eval rounds settings state rounds (.suspension x))
      s o := by
  obtain ⟨m, hm⟩ := first
  have once : forceValue (evaluate bodies (m + 1)) (m + 1) settings state (m + 1)
      (.suspension x) s = o := by
    have forced : force (evaluate bodies (m + 1)) (m + 1) settings x state s = o :=
      hm (m + 1) (by omega)
    cases o with
    | error e t => exact Run.bind_of_error forced
    | ok reply t =>
      cases reply with
      | error fault => exact Run.bind_of_ok forced
      | ok v => exact stops.elim
  exact .of_fuel (fun h => forceValue_le (evaluate_le _ h) h settings state h _) once finished

end

section

variable {call : Call} {x : (Policy.loops settings).Context}
  {job : Evaluator → Nat → Run Reply}

theorem resolved_of_settle {state : Value} (h : Ends (c.bodies settings)
      (fun eval rounds => job eval rounds >>= settle eval rounds settings state) s o) :
    o.Resolved := by
  obtain ⟨enough, h⟩ := h
  intro request t e
  obtain ⟨reply, u, -, settled⟩ := Run.bind_eq_ok.mp ((h enough (Nat.le_refl _)).trans e)
  exact settle_settled settled request rfl

theorem resolved_of_apply
    (h : Ends (c.bodies settings) (apply · · settings call) s o) : o.Resolved :=
  resolved_of_settle h

theorem realized_excess {reply : Reply} (saturated : call.isSaturated = true)
    (left : call.surplus ≠ [])
    (run : Realized settings c ((Policy.loops settings).own call.state)
      (bodyReply · · settings call) (s.log ((Policy.loops settings).announce call))
      (.ok reply t))
    (surplus : Ends (c.bodies settings) (applySurplus · · settings call reply) t o)
    (resolved : o.Resolved) :
    Realized settings c x (fun eval _ => eval (.dispatch settings call)) s o := by
  have settled := run.settle
  exact .of_resolved (.step ((settled.bind surplus).congr fun eval rounds =>
    dispatch_of_excess saturated left)) resolved

theorem realized_excessStop (saturated : call.isSaturated = true) (left : call.surplus ≠ [])
    (run : Realized settings c ((Policy.loops settings).own call.state)
      (bodyReply · · settings call) (s.log ((Policy.loops settings).announce call)) o)
    (stops : o.Stops) :
    Realized settings c x (fun eval _ => eval (.dispatch settings call)) s o := by
  have settled := run.settle
  have resolved := resolved_of_settle settled
  cases o with
  | error e t =>
    exact .of_resolved (.step (settled.bind_error.congr fun eval rounds =>
      dispatch_of_excess saturated left)) resolved
  | ok reply t =>
    cases reply with
    | ok v => exact stops.elim
    | error fault => exact realized_excess saturated left run (.constant rfl) resolved

end

def Realizes (settings : Settings) (c : Conduct) :
    Job (Policy.loops settings).Context → Store → Outcome Reply → Prop
  | .apply x call => Realized settings c x fun eval _ => eval (.dispatch settings call)
  | .run x call forced ps rest =>
    Realized settings c x fun eval rounds => forceOnward eval rounds settings call forced ps rest
  | .force state v => Ends (c.bodies settings)
    fun eval rounds => forceValue eval rounds settings state rounds v
  | .invoke x callee payload => Realized settings c x fun eval _ => eval (.invoke callee payload)
  | .perform x _ p => Realized settings c x fun eval rounds =>
    (p.bind (Ending.program settings)).perform (answer eval rounds)
  | .resolve x _ request => Ends (c.bodies settings)
    fun eval rounds => performRequest eval rounds settings x request

section

variable {call : Call} {x : (Policy.loops settings).Context} {payload : Payload}

theorem forceValue_of_plain {eval : Evaluator} {rounds steps : Nat} {state v : Value}
    (plain : ∀ t, v ≠ .suspension t) :
    forceValue eval rounds settings state steps v = pure (.ok v) := by
  cases v with
  | suspension t => exact absurd rfl (plain t)
  | _ => cases steps <;> rfl

theorem forceArgument_of_executed {eval : Evaluator} {rounds : Nat} {state v : Value}
    {p : Parameter} (executed : p.isSuspended = false) :
    forceArgument eval rounds settings state p v =
      forceValue eval rounds settings state rounds v := by
  simp [forceArgument, executed]

variable {forced ps} {p : Parameter} {v w : Value} {vs : List Value}

theorem realizes_forced (executed : p.isSuspended = false)
    (first : Realizes settings c (.force call.state v) s (.ok (.ok w) t))
    (rest : Realizes settings c (.run x call (forced ++ [w]) ps vs) t o) :
    Realizes settings c (.run x call forced (p :: ps) (v :: vs)) s o := by
  obtain ⟨m, hm⟩ := first
  refine Realized.lift rest fun o' => ?_
  rintro ⟨n, hn⟩
  refine ⟨max m n, fun fuel enough => ?_⟩
  refine Eq.trans (forceOnward_cons_of_ok ?_) (hn fuel (by omega))
  rw [forceArgument_of_executed executed]
  exact hm fuel (by omega)

theorem realizes_forceStop (executed : p.isSuspended = false)
    (first : Realizes settings c (.force call.state v) s o) (stops : o.Stops) :
    Realizes settings c (.run x call forced (p :: ps) (v :: vs)) s o := by
  obtain ⟨m, hm⟩ := first
  have stopped (fuel) (enough : m ≤ fuel) : forceArgument (evaluate (c.bodies settings) fuel)
      fuel settings call.state p v s = o := by
    rw [forceArgument_of_executed executed]
    exact hm fuel enough
  cases o with
  | error e t =>
    exact .halted ⟨m, fun fuel enough => forceOnward_cons_of_halt (stopped fuel enough)⟩
  | ok reply t =>
    cases reply with
    | ok w => exact stops.elim
    | error fault =>
      refine .of_resolved
        ⟨m, fun fuel enough => forceOnward_cons_of_fault (stopped fuel enough)⟩ ?_
      exact Outcome.resolved_ok (forceArgument_settled (stopped m (Nat.le_refl _))) t

theorem realizes_frame
    (inside : Realizes settings c (.apply ((Policy.loops settings).inFrame x call) call) s o) :
    Realizes settings c (.perform x payload (.done (.frame call))) s o := by
  have same (eval rounds) : ((Program.done (.frame call)).bind
      (Ending.program settings)).perform (answer eval rounds) =
        applyInFrame eval rounds settings call := bind_pure _
  cases strategy : call.closure.signature.strategy with
  | direct =>
    rw [Policy.loops_inFrame_of_direct strategy] at inside
    refine Realized.lift inside fun o' ends => ends.congr fun eval rounds => ?_
    rw [same, applyInFrame_of_direct strategy]
  | loop =>
    rw [Policy.loops_inFrame_of_loop strategy] at inside
    have ends := Realized.apply inside
    refine .of_resolved (ends.congr fun eval rounds => ?_) (resolved_of_apply ends)
    rw [same, applyInFrame_of_loop strategy]

theorem realizes_constructed {r : Request} {next : r.Answer → Program Ending} {a : r.Answer}
    (answered : r.construct s = .ok a t)
    (rest : Realizes settings c (.perform x payload (next a)) t o) :
    Realizes settings c (.perform x payload (.ask r next)) s o := by
  refine Realized.lift rest fun o' ends => ends.congr fun eval rounds => ?_
  cases r with
  | apply dispatcher | applyInFrame dispatcher =>
    cases dispatcher with
    | currying => cases answered
    | host => exact Run.bind_of_ok answered
  | force | resume | invoke => cases answered
  | _ => exact Run.bind_of_ok answered

theorem realizes_unconstructed {r : Request} {next : r.Answer → Program Ending} {e : Halt}
    (halted : r.construct s = .error e t)
    (finished : Outcome.Finished (.error e t : Outcome Reply)) :
    Realizes settings c (.perform x payload (.ask r next)) s (.error e t) := by
  have ends (same : ∀ eval rounds, answer eval rounds r = r.construct) :
      Realizes settings c (.perform x payload (.ask r next)) s (.error e t) := by
    refine .halted ⟨0, fun fuel _ => ?_⟩
    exact Run.bind_of_error ((congrFun (same _ _) s).trans halted)
  cases r with
  | apply dispatcher | applyInFrame dispatcher =>
    cases dispatcher with
    | currying =>
      cases halted
      exact absurd finished (Outcome.not_finished_exhausted _)
    | host => cases halted
  | force | resume | invoke =>
    cases halted
    exact absurd finished (Outcome.not_finished_exhausted _)
  | _ => exact ends fun _ _ => rfl

theorem perform_aside {p : Program Ending} {callee : Callee} {payload' : Payload}
    {next : Reply → Program Ending} (aside : p.aside? = some (callee, payload', next))
    (eval : Evaluator) (rounds : Nat) :
    (p.bind (Ending.program settings)).perform (answer eval rounds) =
      eval (.invoke callee payload') >>= fun r =>
        ((next r).bind (Ending.program settings)).perform (answer eval rounds) := by
  unfold Program.aside? at aside
  split at aside
  · cases aside
    rfl
  · cases aside
    rfl
  · cases aside

theorem realizes_aside {p : Program Ending} {callee : Callee} {payload' : Payload}
    {next : Reply → Program Ending} {r : Reply}
    (aside : p.aside? = some (callee, payload', next))
    (first : Realizes settings c (.invoke (Policy.loops settings).back callee payload') s
      (.ok r t))
    (rest : Realizes settings c (.perform x payload (next r)) t o) :
    Realizes settings c (.perform x payload p) s o := by
  refine Realized.lift rest fun o' ends => ?_
  have both := Ends.bind (f := fun r eval rounds => ((next r).bind
    (Ending.program settings)).perform (answer eval rounds)) (Realized.of_back first) ends
  exact both.congr fun eval rounds => congrFun (perform_aside aside eval rounds) s

theorem realizes_asideHalt {p : Program Ending} {callee : Callee} {payload' : Payload}
    {next : Reply → Program Ending} {e : Halt}
    (aside : p.aside? = some (callee, payload', next))
    (first : Realizes settings c (.invoke (Policy.loops settings).back callee payload') s
      (.error e t)) :
    Realizes settings c (.perform x payload p) s (.error e t) := by
  have both := Ends.bind_error (f := fun r eval rounds => ((next r).bind
    (Ending.program settings)).perform (answer eval rounds)) (Realized.of_back first)
  exact .halted (both.congr fun eval rounds => congrFun (perform_aside aside eval rounds) s)

theorem realizes_request {request : TailCall}
    (resolve : Realizes settings c (.resolve x payload request)
      (s.log ((Policy.loops settings).enter x request)) o) :
    Realizes settings c (.perform x payload (.done (.reply (.error (.tailCall request))))) s
      o := by
  have performed : Ends (c.bodies settings) (performRequest · · settings x request)
      (s.log ((Policy.loops settings).enter x request)) o := resolve
  exact .replied (.constant rfl) (performed.congr fun _ _ => goOn_tailCall x request s)

theorem realizes_refuse {request : TailCall} {fault : Fault}
    (turn : (Policy.loops settings).turn x payload request = .error fault) :
    Realizes settings c (.resolve x payload request) s (.ok (.error fault) s) := by
  match x with
  | none =>
    cases turn
    exact ⟨0, fun _ _ => rfl⟩
  | some loop =>
    cases exceeded : settings.exceeded? (loop.performed.getD 0 + 1) with
    | none => cases (Policy.loops_turn_of_within exceeded).symm.trans turn
    | some limit =>
      cases (Policy.loops_turn_of_exceeded exceeded).symm.trans turn
      refine ⟨1, fun fuel enough => ?_⟩
      obtain ⟨n, rfl⟩ : ∃ n, fuel = n + 1 := ⟨fuel - 1, by omega⟩
      exact congrFun (callLoop_of_exceeded exceeded) s

theorem realizes_next {request : TailCall} {y : (Policy.loops settings).Context} {state : Value}
    (turn : (Policy.loops settings).turn x payload request = .ok (y, state))
    (apply : Realizes settings c (.apply y (requested state request)) s o)
    (finished : o.Finished) :
    Realizes settings c (.resolve x payload request) s o := by
  obtain ⟨loop, rfl, within, rfl, rfl⟩ := Policy.loops_turn_eq_ok turn
  exact callLoop_ends within apply finished

end

theorem realizes {job : Job (Policy.loops settings).Context} {hs}
    (h : Evaluates (.loops settings) c job s hs o) (finished : o.Finished) :
    Realizes settings c job s o := by
  induction h with
  | cut => exact absurd finished (Outcome.not_finished_exhausted _)
  | bind unsaturated bound =>
    refine .of_resolved (.step ⟨0, fun _ _ => ?_⟩) fun request t e => ?_
    · exact (dispatch_of_unsaturated unsaturated).trans bound
    · exact bindSupplied_settled (bound.trans e) request rfl
  | exact saturated none_left _ run =>
    exact Realized.lift (run finished) fun o' ends =>
      .step (ends.congr fun _ _ => dispatch_of_exact saturated none_left)
  | excessStop saturated left _ stops run =>
    exact realized_excessStop saturated left (run finished) stops
  | @excess x call s hs hs' next t o saturated left _ _ run surplus =>
    have applied : Ends (c.bodies settings)
        (apply · · settings ⟨next, none, call.state, call.surplus⟩) _ o :=
      Realized.apply (surplus finished)
    exact realized_excess saturated left (run trivial) (applied.congr fun _ _ => rfl)
      (resolved_of_apply applied)
  | @excessOther x call s hs v t saturated left _ other run =>
    refine realized_excess saturated left (run trivial) ⟨0, fun _ _ => ?_⟩
      (Outcome.resolved_ok (Settled.notAFunction _) _)
    cases v with
    | closure => cases other
    | _ => rfl
  | keep suspended _ rest =>
    refine Realized.lift (rest finished) fun o' ends => ends.congr fun eval rounds => ?_
    exact forceOnward_cons_of_ok (by simp [forceArgument, suspended])
  | forced executed _ _ first rest =>
    exact realizes_forced executed (first trivial) (rest finished)
  | forceStop executed _ stops first =>
    exact realizes_forceStop executed (first finished) stops
  | body all presented _ invoke =>
    refine Realized.lift (invoke finished) fun o' ends => ends.congr fun eval rounds => ?_
    rw [forceOnward_of_done all]
    exact Run.bind_of_ok presented
  | value plain => exact ⟨0, fun fuel _ => congrFun (forceValue_of_plain plain) _⟩
  | again _ _ first rest =>
    exact forceValue_ends (Realized.force (first trivial)) (rest finished) finished
  | suspensionStop _ stops first =>
    exact forceValue_stops (Realized.force (first finished)) stops finished
  | invoke _ perform =>
    exact Realized.lift (perform finished) fun o' ends =>
      .step (ends.congr fun _ _ => rfl)
  | reply settled =>
    exact .of_resolved ⟨0, fun _ _ => rfl⟩ (Outcome.resolved_ok settled _)
  | request _ resolve => exact realizes_request (resolve finished)
  | frame _ inside => exact realizes_frame (inside finished)
  | ask answered _ rest => exact realizes_constructed answered (rest finished)
  | askHalt halted => exact realizes_unconstructed halted finished
  | aside is_aside _ _ first rest =>
    exact realizes_aside is_aside (first trivial) (rest finished)
  | asideHalt is_aside _ first => exact realizes_asideHalt is_aside (first finished)
  | refuse turn => exact realizes_refuse turn
  | next turn _ apply => exact realizes_next turn (apply finished) finished

theorem ends_apply_iff {call : Call} (finished : o.Finished) :
    Ends (c.bodies settings) (apply · · settings call) s o ↔
      ∃ hs, Evaluates (.loops settings) c (.apply ((Policy.loops settings).own call.state) call)
        s hs o := by
  constructor
  · rintro ⟨enough, h⟩
    have evaluated := (derivable_evaluate settings c enough).apply enough call s
    have run : apply (evaluate (c.bodies settings) enough) enough settings call s = o :=
      h enough (Nat.le_refl _)
    rwa [run] at evaluated
  · rintro ⟨hs, h⟩
    exact Realized.apply (realizes h finished)

end Machine

end Callable
