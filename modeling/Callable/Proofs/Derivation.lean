import Callable.Proofs.Stages

/-! Whatever the machine does is derivable, finished or not. The machine decides about a tail
call after the body has come back with it, the rules decide in the context in which the body
runs; so a run that comes back with a tail call `Follows` a job if the job comes out, in each
context, as the request comes out there. -/

namespace Callable

namespace Machine

variable {settings : Settings} {c : Conduct} {eval : Evaluator}
  {job job' : (Policy.loops settings).Context → Job (Policy.loops settings).Context}
  {s t : Store} {o : Outcome Reply}

/-- The outcome of a job before anything has resolved its tail calls. -/
structure Follows (settings : Settings) (c : Conduct)
    (job : (Policy.loops settings).Context → Job (Policy.loops settings).Context) (s : Store)
    (o : Outcome Reply) : Prop where
  resolved : o.Resolved → ∀ x, ∃ hs, Evaluates (.loops settings) c (job x) s hs o
  tailCall : ∀ {request t}, o = .ok (.error (.tailCall request)) t → ∃ payload, ∀ x hs o',
    Evaluates (.loops settings) c (.resolve x payload request)
      (t.log ((Policy.loops settings).enter x request)) hs o' →
    ∃ hs', Evaluates (.loops settings) c (job x) s hs' o'

namespace Follows

theorem of_resolved (resolved : o.Resolved)
    (h : ∀ x, ∃ hs, Evaluates (.loops settings) c (job x) s hs o) : Follows settings c job s o :=
  ⟨fun _ => h, fun e => absurd e (resolved _ _)⟩

theorem lift (h : Follows settings c job t o)
    (reduce : ∀ x hs o', Evaluates (.loops settings) c (job x) t hs o' →
      ∃ hs', Evaluates (.loops settings) c (job' x) s hs' o') :
    Follows settings c job' s o where
  resolved resolved x := by
    obtain ⟨hs, d⟩ := h.resolved resolved x
    exact reduce x hs o d
  tailCall e := by
    obtain ⟨payload, resolve⟩ := h.tailCall e
    refine ⟨payload, fun x hs o' d => ?_⟩
    obtain ⟨hs', d'⟩ := resolve x hs o' d
    exact reduce x hs' o' d'

theorem back (h : Follows settings c job s o) :
    ∃ hs, Evaluates (.loops settings) c (job (Policy.loops settings).back) s hs o := by
  cases o with
  | error halt t => exact h.resolved (Outcome.resolved_error halt t) _
  | ok reply t =>
    rcases Settled.or_tailCall reply with settled | ⟨request, rfl⟩
    · exact h.resolved (Outcome.resolved_ok settled t) _
    · obtain ⟨payload, resolve⟩ := h.tailCall rfl
      exact resolve _ [] _ (.refuse rfl)

end Follows

/-- An evaluator whose answers follow the jobs that it is set. -/
structure Derivable (settings : Settings) (c : Conduct) (eval : Evaluator) : Prop where
  dispatch : ∀ call s, Follows settings c (.apply · call) s (eval (.dispatch settings call) s)
  invoke : ∀ callee payload s,
    Follows settings c (.invoke · callee payload) s (eval (.invoke callee payload) s)

namespace Derivable

variable (derivable : Derivable settings c eval) (rounds : Nat)

include derivable

theorem callLoop (loop : Loop) (payload : Payload) (request : TailCall) (s : Store) :
    ∃ hs, Evaluates (.loops settings) c (.resolve (some loop) payload request) s hs
      (callLoop eval settings loop.state rounds (loop.performed.getD 0) request s) := by
  induction rounds generalizing loop payload request s with
  | zero => exact ⟨[], .cut⟩
  | succ rounds ih =>
    cases exceeded : settings.exceeded? (loop.performed.getD 0 + 1) with
    | some limit =>
      rw [callLoop_of_exceeded exceeded]
      exact ⟨[], .refuse (Policy.loops_turn_of_exceeded exceeded)⟩
    | none =>
      rw [callLoop_of_within exceeded]
      have turn : (Policy.loops settings).turn (some loop) payload request = .ok _ :=
        Policy.loops_turn_of_within exceeded
      have follows := derivable.dispatch (requested loop.state request) s
      cases e : eval (.dispatch settings (requested loop.state request)) s with
      | error halt t =>
        rw [Run.bind_of_error e]
        obtain ⟨hs, d⟩ := (e ▸ follows).resolved (Outcome.resolved_error halt t) _
        exact ⟨hs, .next turn d⟩
      | ok reply t =>
        rw [Run.bind_of_ok e]
        rcases Settled.or_tailCall reply with settled | ⟨next, rfl⟩
        · rw [pursue_of_settled settled]
          obtain ⟨hs, d⟩ := (e ▸ follows).resolved (Outcome.resolved_ok settled t) _
          exact ⟨hs, .next turn d⟩
        · obtain ⟨payload', resolve⟩ := (e ▸ follows).tailCall rfl
          obtain ⟨hs, d⟩ := ih ⟨loop.state, some (loop.performed.getD 0 + 1)⟩ payload' next t
          obtain ⟨hs', d'⟩ := resolve _ hs _ d
          exact ⟨hs', .next turn d'⟩

theorem settle {x : Run Reply} (follows : Follows settings c job s (x s)) (state : Value) :
    ∃ hs, Evaluates (.loops settings) c (job ((Policy.loops settings).own state)) s hs
      ((x >>= settle eval rounds settings state) s) := by
  cases e : x s with
  | error halt t =>
    rw [Run.bind_of_error e]
    exact (e ▸ follows).resolved (Outcome.resolved_error halt t) _
  | ok reply t =>
    rw [Run.bind_of_ok e]
    rcases Settled.or_tailCall reply with settled | ⟨request, rfl⟩
    · rw [settle_of_settled settled]
      exact (e ▸ follows).resolved (Outcome.resolved_ok settled t) _
    · obtain ⟨payload, resolve⟩ := (e ▸ follows).tailCall rfl
      obtain ⟨hs, d⟩ := derivable.callLoop rounds ⟨state, none⟩ payload request
        (t.log [.event (.callLoop request.closure.name)])
      exact resolve _ hs _ d

theorem apply (call : Call) (s : Store) :
    ∃ hs, Evaluates (.loops settings) c
      (.apply ((Policy.loops settings).own call.state) call) s hs
      (apply eval rounds settings call s) :=
  derivable.settle rounds (derivable.dispatch call s) call.state

theorem force (x : Suspension Value) (state : Value) (s : Store) :
    ∃ hs, Evaluates (.loops settings) c
      (.invoke ((Policy.loops settings).own state) (.suspension x) (.ofSuspension x state)) s hs
      (force eval rounds settings x state s) :=
  derivable.settle rounds (derivable.invoke _ _ s) state

theorem forceValue (state : Value) (steps : Nat) (v : Value) (s : Store) :
    ∃ hs, Evaluates (.loops settings) c (.force state v) s hs
      (forceValue eval rounds settings state steps v s) := by
  induction steps generalizing v s with
  | zero =>
    cases v with
    | suspension x => exact ⟨[], .cut⟩
    | _ => exact ⟨[], .value (by simp)⟩
  | succ steps ih =>
    cases v with
    | suspension x =>
      obtain ⟨hs, first⟩ := derivable.force rounds x state s
      cases e : Machine.force eval rounds settings x state s with
      | error halt t =>
        have : Machine.forceValue eval rounds settings state (steps + 1) (.suspension x) s =
          .error halt t := Run.bind_of_error e
        rw [this]
        exact ⟨hs, .suspensionStop (e ▸ first) trivial⟩
      | ok reply t =>
        cases reply with
        | error fault =>
          have : Machine.forceValue eval rounds settings state (steps + 1) (.suspension x) s =
            .ok (.error fault) t := Run.bind_of_ok e
          rw [this]
          exact ⟨hs, .suspensionStop (e ▸ first) trivial⟩
        | ok v =>
          have : Machine.forceValue eval rounds settings state (steps + 1) (.suspension x) s =
            Machine.forceValue eval rounds settings state steps v t := Run.bind_of_ok e
          rw [this]
          obtain ⟨hs', rest⟩ := ih v t
          exact ⟨hs ++ hs', .again (e ▸ first) rest⟩
    | _ => exact ⟨[], .value (by simp)⟩

theorem invokeBody (call : Call) {forced ps rest} (all : ps = [] ∨ rest = []) (s : Store) :
    Follows settings c (.run · call forced ps rest) s
      (invokeBody eval call (forced ++ rest) s) := by
  obtain ⟨caller, t, presented⟩ := presentedCaller_ok call s
  have : Machine.invokeBody eval call (forced ++ rest) s = eval (.invoke (.application call)
      (.ofClosure call.closure caller call.state (forced ++ rest))) t :=
    Run.bind_of_ok presented
  rw [this]
  exact (derivable.invoke _ _ t).lift fun x hs o d => ⟨hs, .body all presented d⟩

theorem forceOnward (call : Call) (forced : List Value) (ps : List Parameter)
    (rest : List Value) (s : Store) :
    Follows settings c (.run · call forced ps rest) s
      (forceOnward eval rounds settings call forced ps rest s) := by
  induction ps generalizing forced rest s with
  | nil =>
    rw [forceOnward_of_done (.inl rfl)]
    exact derivable.invokeBody call (.inl rfl) s
  | cons p ps ih =>
    cases rest with
    | nil =>
      rw [forceOnward_of_done (.inr rfl)]
      exact derivable.invokeBody call (.inr rfl) s
    | cons v rest =>
      cases executed : p.isSuspended with
      | true =>
        have first : forceArgument eval rounds settings call.state p v s = .ok (.ok v) s := by
          simp [forceArgument, executed]
        rw [forceOnward_cons_of_ok first]
        exact (ih _ rest s).lift fun x hs o d => ⟨hs, .keep executed d⟩
      | false =>
        have same : forceArgument eval rounds settings call.state p v =
            Machine.forceValue eval rounds settings call.state rounds v := by
          simp [forceArgument, executed]
        obtain ⟨hs, first⟩ := derivable.forceValue rounds call.state rounds v s
        rw [← same] at first
        cases e : forceArgument eval rounds settings call.state p v s with
        | error halt t =>
          rw [forceOnward_cons_of_halt e]
          exact .of_resolved (Outcome.resolved_error halt t) fun x =>
            ⟨hs, .forceStop executed (e ▸ first) trivial⟩
        | ok forcedReply t =>
          cases forcedReply with
          | error fault =>
            rw [forceOnward_cons_of_fault e]
            exact .of_resolved (Outcome.resolved_ok (forceArgument_settled e) t) fun x =>
              ⟨hs, .forceStop executed (e ▸ first) trivial⟩
          | ok w =>
            rw [forceOnward_cons_of_ok e]
            exact (ih _ rest t).lift fun x hs' o d =>
              ⟨hs ++ hs', .forced executed (e ▸ first) d⟩

theorem excess {call : Call} (saturated : call.isSaturated = true) (left : call.surplus ≠ [])
    (s : Store) (x : (Policy.loops settings).Context) :
    ∃ hs, Evaluates (.loops settings) c (.apply x call) s hs
      (Machine.dispatch eval rounds settings call s) := by
  rw [dispatch_of_excess saturated left]
  have follows : Follows settings c
      (.run · call [] call.closure.signature.parameters call.positional) _
      (bodyReply eval rounds settings call (s.log ((Policy.loops settings).announce call))) :=
    derivable.forceOnward rounds call _ _ _ _
  obtain ⟨hs, run⟩ := derivable.settle rounds follows call.state
  cases e : (bodyReply eval rounds settings call >>= Machine.settle eval rounds settings
      call.state) (s.log ((Policy.loops settings).announce call)) with
  | error halt t =>
    rw [e] at run
    rw [Run.bind_of_error e]
    exact ⟨hs, .excessStop saturated left run trivial⟩
  | ok reply t =>
    rw [e] at run
    rw [Run.bind_of_ok e]
    cases reply with
    | error fault => exact ⟨hs, .excessStop saturated left run trivial⟩
    | ok v =>
      cases v with
      | closure next =>
        obtain ⟨hs', surplus⟩ := derivable.apply rounds
          ⟨next, none, call.state, call.surplus⟩
          (t.log [.event (.surplus call.closure.name call.surplus.length)])
        exact ⟨hs ++ hs', .excess saturated left run surplus⟩
      | _ => exact ⟨hs, .excessOther saturated left run rfl⟩

theorem dispatch_follows (call : Call) (s : Store) :
    Follows settings c (.apply · call) s (Machine.dispatch eval rounds settings call s) := by
  cases saturated : call.isSaturated with
  | false =>
    rw [dispatch_of_unsaturated saturated]
    refine .of_resolved ?_ fun x => ⟨[], .bind saturated rfl⟩
    exact fun request t e => bindSupplied_settled e request rfl
  | true =>
    by_cases left : call.surplus = []
    · rw [dispatch_of_exact saturated left]
      exact (derivable.forceOnward rounds call [] _ _ _).lift fun x hs o d =>
        ⟨hs, .exact saturated left d⟩
    · refine .of_resolved ?_ (derivable.excess rounds saturated left s)
      rw [dispatch_of_excess saturated left]
      intro request t e
      obtain ⟨reply, u, settled, applied⟩ := Run.bind_eq_ok.mp e
      obtain ⟨_, _, -, settled⟩ := Run.bind_eq_ok.mp settled
      exact applySurplus_settled (settle_settled settled) applied request rfl

theorem frame (payload : Payload) (call : Call) (s : Store) :
    Follows settings c (.perform · payload (.done (.frame call))) s
      (applyInFrame eval rounds settings call s) := by
  cases strategy : call.closure.signature.strategy with
  | direct =>
    rw [applyInFrame_of_direct strategy]
    refine (derivable.dispatch call s).lift fun x hs o d => ⟨hs, .frame ?_⟩
    rwa [Policy.loops_inFrame_of_direct strategy]
  | loop =>
    rw [applyInFrame_of_loop strategy]
    refine .of_resolved (fun request t e => apply_settled e request rfl) fun x => ?_
    obtain ⟨hs, d⟩ := derivable.apply rounds call s
    exact ⟨hs, .frame (Policy.loops_inFrame_of_loop strategy ▸ d)⟩

theorem aside {payload : Payload} {p : Program Ending} {callee : Callee} {payload' : Payload}
    {next : Reply → Program Ending} (is_aside : p.aside? = some (callee, payload', next))
    {s : Store}
    (rest : ∀ r t, Follows settings c (.perform · payload (next r)) t
      (((next r).bind (Ending.program settings)).perform (answer eval rounds) t)) :
    Follows settings c (.perform · payload p) s
      ((eval (.invoke callee payload') >>= fun r =>
        ((next r).bind (Ending.program settings)).perform (answer eval rounds)) s) := by
  obtain ⟨hs, first⟩ := (derivable.invoke callee payload' s).back
  cases e : eval (.invoke callee payload') s with
  | error halt t =>
    rw [Run.bind_of_error e]
    exact .of_resolved (Outcome.resolved_error halt t) fun x =>
      ⟨hs, .asideHalt is_aside (e ▸ first)⟩
  | ok r t =>
    rw [Run.bind_of_ok e]
    exact (rest r t).lift fun x hs' o d => ⟨hs ++ hs', .aside is_aside (e ▸ first) d⟩

theorem perform (payload : Payload) {p : Program Ending}
    (within : p.Within Request.Undispatched fun _ => True) (s : Store) :
    Follows settings c (.perform · payload p) s
      ((p.bind (Ending.program settings)).perform (answer eval rounds) s) := by
  induction p generalizing s with
  | done ending =>
    cases ending with
    | frame call =>
      have same : ((Program.done (.frame call)).bind (Ending.program settings)).perform
          (answer eval rounds) = applyInFrame eval rounds settings call := bind_pure _
      rw [same]
      exact derivable.frame rounds payload call s
    | reply r =>
      rcases Settled.or_tailCall r with settled | ⟨request, rfl⟩
      · exact .of_resolved (Outcome.resolved_ok settled s) fun x => ⟨[], .reply settled⟩
      · refine ⟨fun resolved => absurd rfl (resolved request s), fun e => ?_⟩
        cases e
        exact ⟨payload, fun x hs o' d => ⟨_, .request d⟩⟩
  | ask r next ih =>
    have constructed (same : answer eval rounds r = r.construct) :
        Follows settings c (.perform · payload (.ask r next)) s
          ((answer eval rounds r >>= fun a =>
            ((next a).bind (Ending.program settings)).perform (answer eval rounds)) s) := by
      rw [same]
      cases e : r.construct s with
      | error halt t =>
        rw [Run.bind_of_error e]
        exact .of_resolved (Outcome.resolved_error halt t) fun x => ⟨[], .askHalt e⟩
      | ok a t =>
        rw [Run.bind_of_ok e]
        exact (ih a (within.2 a) t).lift fun x hs o d => ⟨hs, .ask e d⟩
    cases r with
    | apply | applyInFrame | force => exact within.1.elim
    | resume | invoke => exact derivable.aside rounds rfl fun r t => ih r (within.2 r) t
    | _ => exact constructed rfl

theorem step : Derivable settings c (Machine.step eval rounds (c.bodies settings)) where
  dispatch := derivable.dispatch_follows rounds
  invoke callee payload _ :=
    (derivable.perform rounds payload (c.undispatched callee.target.body payload) _).lift
      fun _ hs _ d => ⟨hs, .invoke d⟩

end Derivable

theorem derivable_evaluate (settings : Settings) (c : Conduct) (fuel : Nat) :
    Derivable settings c (evaluate (c.bodies settings) fuel) := by
  induction fuel with
  | zero =>
    have cut job s : Follows settings c job s (.error .exhausted s) :=
      .of_resolved (Outcome.resolved_error _ _) fun _ => ⟨[], .cut⟩
    exact ⟨fun _ s => cut _ s, fun _ _ s => cut _ s⟩
  | succ fuel ih => exact ih.step fuel

end Machine

end Callable
