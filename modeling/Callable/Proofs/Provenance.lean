import Callable.Foreign
import Callable.Proofs.Delivery
import Callable.Proofs.Truncation

/-! Where faults come from. The course of a run is the list of the bodies that the machine runs in
it, one after the other; what a body runs without a dispatcher is part of that body. The fault
that an application ends with is explained by the last body of its course, and no body is run
after one that has failed: `Bodies.fault_explained`. -/

namespace Callable

open Machine

/-- A body that has been run: on what, from which store, and how it came out. -/
structure Invocation where
  callee : Callee
  payload : Payload
  ready : Store
  reply : Reply
  done : Store

namespace Invocation

def Returns (bodies : Bodies) (i : Invocation) : Prop :=
  Ends bodies (fun eval _ => eval (.invoke i.callee i.payload)) i.ready (.ok i.reply i.done)

/-- The body has failed; to ask for a tail call is no failure. -/
def Fails (i : Invocation) (fault : Fault) : Prop :=
  i.reply = .error fault ∧ Settled (.error fault : Reply)

/-- There are arguments left over for the finished result of the body, which is that value. -/
def Awaited (bodies : Bodies) (settings : Settings) (i : Invocation) (v : Value) (t : Store) :
    Prop :=
  ∃ call, i.callee = .application call ∧ call.leftOver ≠ [] ∧
    Ends bodies (finishedReply · · settings call i.payload) i.ready (.ok (.ok v) t)

end Invocation

def Calm (is : List Invocation) : Prop := ∀ i ∈ is, ∀ fault, ¬ i.Fails fault

theorem Calm.append {is js : List Invocation} (h : Calm is) (h' : Calm js) : Calm (is ++ js) :=
  fun i mem => (List.mem_append.mp mem).elim (h i) (h' i)

theorem Calm.earlier {is earlier : List Invocation} {last : Invocation} (h : Calm is)
    (split : is = earlier ++ [last]) : Calm earlier :=
  fun i mem => h i (split ▸ List.mem_append_left _ mem)

theorem Quiet.of_idle {since : List Entry} (idle : ∀ e ∈ since, e.Idle) : Quiet since := by
  intro e mem
  cases e with
  | invoked => exact (idle _ mem).elim
  | _ => rfl

def Store.Onward (s t : Store) : Prop := ∃ since, t.journal = since ++ s.journal ∧ Quiet since

namespace Store.Onward

variable {s t u : Store}

theorem refl (s : Store) : Onward s s := ⟨[], rfl, .nil⟩

theorem trans (h : Onward s t) (h' : Onward t u) : Onward s u := by
  obtain ⟨since, journal, quiet⟩ := h
  obtain ⟨since', journal', quiet'⟩ := h'
  refine ⟨since' ++ since, ?_, List.forall_mem_append.mpr ⟨quiet', quiet⟩⟩
  rw [journal', journal, List.append_assoc]

theorem event (s : Store) (e : Event) : Onward s (s.log [.event e]) :=
  ⟨[.event e], rfl, List.forall_mem_singleton.mpr rfl⟩

theorem announce (settings : Settings) (call : Call) (s : Store) :
    Onward s (s.log ((Policy.loops settings).announce call)) :=
  ⟨_, rfl, fun e mem => Policy.loops_announce_quiet settings call e (List.mem_reverse.mp mem)⟩

theorem of_idles {α : Type} {x : Run α} (idles : x.Idles) {a : α} (h : x s = .ok a t) :
    Onward s t := by
  obtain ⟨since, journal, idle⟩ := idles s
  rw [Run.journal_of_eq h] at journal
  exact ⟨since, journal, .of_idle idle⟩

theorem invocations (h : Onward s t) : t.invocations = s.invocations := by
  obtain ⟨since, journal, quiet⟩ := h
  have none_of : since.filterMap Entry.invocation? = [] := List.filterMap_eq_nil_iff.mpr quiet
  unfold Store.invocations
  rw [journal, List.filterMap_append, none_of, List.nil_append]

end Store.Onward

/-- The bodies that are run from the store on, in turn, until the run comes out so. The last one
may be halted. -/
inductive Course (bodies : Bodies) : Store → List Invocation → Outcome Unit → Prop where
  | still {s o} (onward : s.Onward o.store) : Course bodies s [] o
  | halted {s callee payload ready fuel h t} (onward : s.Onward ready)
      (halts : evaluate bodies fuel (.invoke callee payload) ready = .error h t) :
      Course bodies s [] (.error h t)
  | invoked {s i is o} (onward : s.Onward i.ready) (returns : i.Returns bodies)
      (rest : Course bodies i.done is o) : Course bodies s (i :: is) o

namespace Course

variable {bodies : Bodies} {s t : Store} {is js : List Invocation} {o : Outcome Unit}

theorem after (onward : s.Onward t) (h : Course bodies t is o) : Course bodies s is o := by
  cases h with
  | still onward' => exact .still (onward.trans onward')
  | halted onward' halts => exact .halted (onward.trans onward') halts
  | invoked onward' returns rest => exact .invoked (onward.trans onward') returns rest

theorem append (h : Course bodies s is (.ok () t)) (h' : Course bodies t js o) :
    Course bodies s (is ++ js) o := by
  generalize same : (.ok () t : Outcome Unit) = o' at h
  induction h with
  | still onward =>
    subst same
    exact h'.after onward
  | halted => cases same
  | invoked onward returns _ ih => exact .invoked onward returns (ih same)

theorem returns_invocations {i : Invocation} (h : i.Returns bodies)
    (constructing : ∀ label payload,
      (bodies label payload).Within Request.Constructs fun _ => True) :
    i.done.invocations = (i.callee, i.payload) :: i.ready.invocations := by
  obtain ⟨enough, run⟩ := h
  have performed := Run.Idles.perform (constructing i.callee.target.body i.payload)
    (evaluate bodies enough) enough
  have onward : (i.ready.log [.invoked i.callee i.payload]).Onward i.done :=
    .of_idles performed (run (enough + 1) (by omega))
  rw [onward.invocations, Store.invocations_log_invoked]

theorem invocations (constructing : ∀ label payload,
      (bodies label payload).Within Request.Constructs fun _ => True)
    (h : Course bodies s is (.ok () t)) :
    t.invocations = (is.map fun i => (i.callee, i.payload)).reverse ++ s.invocations := by
  generalize same : (.ok () t : Outcome Unit) = o at h
  induction h with
  | still onward =>
    subst same
    exact onward.invocations
  | halted => cases same
  | @invoked s i is o onward returns _ ih =>
    rw [ih same, returns_invocations returns constructing, onward.invocations]
    simp

end Course

/-- The fault of an application, by the reply of the last body: it is that of a body that has
failed, or what awaits a value that is no closure, or the limit that a request lies beyond. -/
def Explains (bodies : Bodies) (settings : Settings) (is : List Invocation) (last : Invocation)
    (fault : Fault) (t : Store) : Prop :=
  match last.reply with
  | .error (.tailCall _) => ∃ limit, settings.loopLimit = some limit ∧ fault = .loopLimit limit
  | .error failure => fault = failure ∧ t = last.done
  | .ok v => (∀ f, v ≠ .closure f) ∧ fault = .notAFunction v.typeName ∧
      ∃ i ∈ is, i.Awaited bodies settings v last.done

theorem Explains.of_fails {bodies : Bodies} {settings : Settings} {is : List Invocation}
    {last : Invocation} {failure : Fault} (fails : last.Fails failure) {fault : Fault} {t : Store} :
    Explains bodies settings is last fault t ↔ fault = failure ∧ t = last.done := by
  obtain ⟨reply, settled⟩ := fails
  unfold Explains
  rw [reply]
  cases failure with
  | tailCall request => exact absurd rfl (settled request)
  | _ => rfl

/-- What a run makes of its bodies. A value that it returns is in order by `back`. -/
inductive Accounts {α : Type} (bodies : Bodies) (settings : Settings)
    (back : α → List Invocation → Store → Prop) (is : List Invocation) :
    Outcome (Except Fault α) → Prop where
  | halted {h t} (calm : Calm is) : Accounts bodies settings back is (.error h t)
  | value {a t} (calm : Calm is) (same : back a is t) :
      Accounts bodies settings back is (.ok (.ok a) t)
  | request {request earlier last t} (calm : Calm is) (split : is = earlier ++ [last])
      (same : last.reply = .error (.tailCall request)) :
      Accounts bodies settings back is (.ok (.error (.tailCall request)) t)
  | fault {earlier last fault t} (split : is = earlier ++ [last]) (calm : Calm earlier)
      (settled : Settled (.error fault : Reply))
      (explains : Explains bodies settings is last fault t) :
      Accounts bodies settings back is (.ok (.error fault) t)

def Accounted {α : Type} (bodies : Bodies) (settings : Settings)
    (back : α → List Invocation → Store → Prop) (earlier : List Invocation) (s : Store)
    (o : Outcome (Except Fault α)) : Prop :=
  ∃ is, Course bodies s is o.bare ∧ Accounts bodies settings back (earlier ++ is) o

def Value.Returned (v : Value) (is : List Invocation) (t : Store) : Prop :=
  v.closure? = none → ∃ earlier last, is = earlier ++ [last] ∧ last.reply = .ok v ∧ last.done = t

section

variable {α β : Type} {bodies : Bodies} {settings : Settings}
  {back : α → List Invocation → Store → Prop} {back' : β → List Invocation → Store → Prop}
  {earlier is : List Invocation} {s t : Store}

namespace Accounts

theorem calm_of_value {a : α} (h : Accounts bodies settings back is (.ok (.ok a) t)) :
    Calm is := by
  cases h with
  | value calm => exact calm

theorem asked {request : TailCall}
    (h : Accounts bodies settings back is (.ok (.error (.tailCall request)) t)) : Calm is ∧
      ∃ earlier last, is = earlier ++ [last] ∧ last.reply = .error (.tailCall request) := by
  cases h with
  | request calm split same => exact ⟨calm, _, _, split, same⟩
  | fault _ _ settled => exact absurd rfl (settled request)

theorem of_error {fault : Fault} (h : Accounts bodies settings back is (.ok (.error fault) t)) :
    Accounts bodies settings back' is (.ok (.error fault) t) := by
  cases h with
  | request calm split same => exact .request calm split same
  | fault split calm settled explains => exact .fault split calm settled explains

theorem explained {fault : Fault}
    (h : Accounts bodies settings back is (.ok (.error fault) t))
    (settled : Settled (.error fault : Reply)) :
    ∃ earlier last, is = earlier ++ [last] ∧ Explains bodies settings is last fault t := by
  cases h with
  | request => exact absurd rfl (settled _)
  | fault split _ _ explains => exact ⟨_, _, split, explains⟩

theorem of_body {i : Invocation} (calm : Calm earlier) :
    Accounts bodies settings Value.Returned (earlier ++ [i]) (.ok i.reply i.done) := by
  have calm_of (answers : ∀ fault, ¬ i.Fails fault) : Calm (earlier ++ [i]) :=
    calm.append (List.forall_mem_singleton.mpr answers)
  rcases Settled.or_tailCall i.reply with settled | ⟨request, asks⟩
  · cases reply : i.reply with
    | ok v =>
      refine .value (calm_of fun fault fails => ?_) fun _ => ⟨earlier, i, rfl, reply, rfl⟩
      cases reply.symm.trans fails.1
    | error failure =>
      rw [reply] at settled
      exact .fault rfl calm settled ((Explains.of_fails ⟨reply, settled⟩).mpr ⟨rfl, rfl⟩)
  · rw [asks]
    refine .request (calm_of fun fault fails => ?_) rfl asks
    cases asks.symm.trans fails.1
    exact fails.2 request rfl

theorem failed {o : Outcome (Except Fault α)} (h : Accounts bodies settings back is o)
    {i : Invocation} (mem : i ∈ is) {failure : Fault} (fails : i.Fails failure) :
    ∃ earlier, is = earlier ++ [i] ∧ Calm earlier ∧ o = .ok (.error failure) i.done := by
  cases h with
  | halted calm | value calm | request calm => exact absurd fails (calm i mem failure)
  | fault split calm settled explains =>
    subst split
    rcases List.mem_append.mp mem with early | at_end
    · exact absurd fails (calm i early failure)
    · cases List.mem_singleton.mp at_end
      obtain ⟨rfl, rfl⟩ := (Explains.of_fails fails).mp explains
      exact ⟨_, rfl, calm, rfl⟩

end Accounts

namespace Accounted

theorem pure {answer : Except Fault α} (h : Accounts bodies settings back is (.ok answer s)) :
    Accounted bodies settings back is s (.ok answer s) :=
  ⟨[], .still (.refl s), by rwa [List.append_nil]⟩

theorem stopped {halt : Halt} (calm : Calm earlier) :
    Accounted bodies settings back earlier s (.error halt s) :=
  ⟨[], .still (.refl s), .halted (by rwa [List.append_nil])⟩

theorem of_halt {callee : Callee} {payload : Payload} {fuel : Nat} {halt : Halt}
    (calm : Calm earlier)
    (run : evaluate bodies fuel (.invoke callee payload) s = .error halt t) :
    Accounted bodies settings back earlier s (.error halt t) :=
  ⟨[], .halted (.refl s) run, .halted (by rwa [List.append_nil])⟩

theorem onward {o : Outcome (Except Fault α)} (onward : s.Onward t)
    (h : Accounted bodies settings back is t o) : Accounted bodies settings back is s o := by
  obtain ⟨js, course, accounts⟩ := h
  exact ⟨js, course.after onward, accounts⟩

theorem skip {γ : Type} {x : Run γ} {f : γ → Run (Except Fault α)} {a : γ} (first : x s = .ok a t)
    (onward : s.Onward t) (h : Accounted bodies settings back is t (f a t)) :
    Accounted bodies settings back is s ((x >>= f) s) := by
  rw [Run.bind_of_ok first]
  exact .onward onward h

theorem bind {x : Run (Except Fault α)} {f : Except Fault α → Run (Except Fault β)}
    (h : Accounted bodies settings back earlier s (x s))
    (next : ∀ answer t is, x s = .ok answer t →
      Accounts bodies settings back (earlier ++ is) (.ok answer t) →
      Accounted bodies settings back' (earlier ++ is) t (f answer t)) :
    Accounted bodies settings back' earlier s ((x >>= f) s) := by
  obtain ⟨is, course, accounts⟩ := h
  cases hx : x s with
  | error halt t =>
    rw [hx] at course accounts
    rw [Run.bind_of_error hx]
    cases accounts with
    | halted calm => exact ⟨is, course, .halted calm⟩
  | ok answer t =>
    rw [hx] at course accounts
    rw [Run.bind_of_ok hx]
    obtain ⟨js, course', accounts'⟩ := next answer t is hx accounts
    exact ⟨is ++ js, course.append course', by rwa [← List.append_assoc]⟩

end Accounted

end

namespace Machine

section

variable {bodies : Bodies} {settings : Settings} {fuel rounds : Nat} {state : Value}
  {is : List Invocation} {s : Store}

theorem invoke_returns {callee : Callee} {payload : Payload} {reply : Reply} {t : Store}
    (h : evaluate bodies fuel (.invoke callee payload) s = .ok reply t) :
    Invocation.Returns bodies ⟨callee, payload, s, reply, t⟩ :=
  .of_fuel (fun le => evaluate_le bodies le _) h trivial

theorem finishedReply_ends {call : Call} {payload : Payload} {reply : Reply} {t : Store}
    (h : finishedReply (evaluate bodies fuel) rounds settings call payload s = .ok reply t) :
    Ends bodies (finishedReply · · settings call payload) s (.ok reply t) := by
  refine ⟨max fuel rounds, fun more enough => Run.Le.eq_of_finished ?_ h trivial⟩
  have le := evaluate_le bodies (m := fuel) (n := more) (by omega)
  refine .bind (le _) fun reply => ?_
  cases call.leftOver.isEmpty with
  | true => exact .refl _
  | false => exact settle_le le (by omega) _ _ reply

theorem invoke_accounted (callee : Callee) (payload : Payload) (calm : Calm is) (s : Store) :
    Accounted bodies settings Value.Returned is s
      (evaluate bodies fuel (.invoke callee payload) s) := by
  cases run : evaluate bodies fuel (.invoke callee payload) s with
  | error h t => exact .of_halt calm run
  | ok reply t =>
    let i : Invocation := ⟨callee, payload, s, reply, t⟩
    have course : Course bodies s [i] (.ok () t) :=
      .invoked (.refl s) (invoke_returns run) (.still (.refl t))
    exact ⟨[i], course, Accounts.of_body (i := i) calm⟩

end

def Explained (bodies : Bodies) (settings : Settings) (eval : Evaluator) : Prop :=
  ∀ {is}, Calm is → ∀ call s,
    Accounted bodies settings Value.Returned is s (eval (.dispatch settings call) s)

section

variable {bodies : Bodies} {settings : Settings} {fuel rounds : Nat} {state : Value}
  {is : List Invocation} (explained : Explained bodies settings (evaluate bodies fuel))

include explained

theorem callLoop_accounted {performed : UInt64} {request : TailCall} {earlier : List Invocation}
    {last : Invocation} (calm : Calm is) (split : is = earlier ++ [last])
    (asked : last.reply = .error (.tailCall request)) (s : Store) :
    Accounted bodies settings Value.Returned is s
      (callLoop (evaluate bodies fuel) settings state rounds performed request s) := by
  induction rounds generalizing performed request is earlier last s with
  | zero => exact .stopped calm
  | succ rounds ih =>
    cases exceeded : settings.exceeded? (performed + 1) with
    | some limit =>
      rw [callLoop_of_exceeded exceeded]
      have set := (Settings.exceeded?_eq_some.mp exceeded).1
      refine .pure (.fault split (calm.earlier split) (.loopLimit limit) ?_)
      unfold Explains
      rw [asked]
      exact ⟨limit, set, rfl⟩
    | none =>
      rw [callLoop_of_within exceeded]
      refine .bind (explained calm _ s) fun reply t js _ accounts => ?_
      rcases Settled.or_tailCall reply with settled | ⟨next, rfl⟩
      · rw [pursue_of_settled settled]
        exact .pure accounts
      · obtain ⟨calm, earlier, last, split, asked⟩ := accounts.asked
        exact ih calm split asked t

theorem settle_accounted {reply : Reply} {s : Store}
    (h : Accounts bodies settings Value.Returned is (.ok reply s)) :
    Accounted bodies settings Value.Returned is s
      (settle (evaluate bodies fuel) rounds settings state reply s) := by
  rcases Settled.or_tailCall reply with settled | ⟨request, rfl⟩
  · rw [settle_of_settled settled]
    exact .pure h
  · obtain ⟨calm, earlier, last, split, asked⟩ := h.asked
    exact .onward (.event s (.callLoop request.closure.name))
      (callLoop_accounted explained calm split asked _)

theorem apply_accounted (calm : Calm is) (call : Call) (s : Store) :
    Accounted bodies settings Value.Returned is s
      (apply (evaluate bodies fuel) rounds settings call s) :=
  .bind (explained calm call s) fun _ _ _ _ accounts => settle_accounted explained accounts

theorem force_accounted (calm : Calm is) (t : Suspension Value) (s : Store) :
    Accounted bodies settings Value.Returned is s
      (force (evaluate bodies fuel) rounds settings t state s) :=
  .bind (invoke_accounted _ _ calm s) fun _ _ _ _ accounts => settle_accounted explained accounts

theorem forceValue_accounted (steps : Nat) (calm : Calm is) (v : Value) (s : Store) :
    Accounted bodies settings (fun _ _ _ => True) is s
      (forceValue (evaluate bodies fuel) rounds settings state steps v s) := by
  induction steps generalizing is v s with
  | zero =>
    cases v with
    | suspension t => exact .stopped calm
    | _ => exact .pure (.value calm trivial)
  | succ steps ih =>
    cases v with
    | suspension t =>
      refine .bind (force_accounted explained calm t s) fun reply u js _ accounts => ?_
      cases reply with
      | ok w => exact ih accounts.calm_of_value w u
      | error fault => exact .pure accounts.of_error
    | _ => exact .pure (.value calm trivial)

theorem forceArgument_accounted (calm : Calm is) (p : Parameter) (v : Value) (s : Store) :
    Accounted bodies settings (fun _ _ _ => True) is s
      (forceArgument (evaluate bodies fuel) rounds settings state p v s) := by
  unfold forceArgument
  cases p.isSuspended with
  | true => exact .pure (.value calm trivial)
  | false => exact forceValue_accounted explained rounds calm v s

theorem forceArguments_accounted (calm : Calm is) (ps : List Parameter) (vs : List Value)
    (s : Store) : Accounted bodies settings (fun _ _ _ => True) is s
      (forceArguments (evaluate bodies fuel) rounds settings state ps vs s) := by
  induction ps generalizing is vs s with
  | nil => cases vs <;> exact .pure (.value calm trivial)
  | cons p ps ih =>
    cases vs with
    | nil => exact .pure (.value calm trivial)
    | cons v vs =>
      refine .bind (forceArgument_accounted explained calm p v s) fun first t js _ accounts => ?_
      cases first with
      | error fault => exact .pure accounts.of_error
      | ok w =>
        refine .bind (ih accounts.calm_of_value vs t) fun rest u js _ accounts => ?_
        cases rest with
        | error fault => exact .pure accounts.of_error
        | ok ws => exact .pure (.value accounts.calm_of_value trivial)

theorem applySurplus_accounted {call : Call} {reply : Reply} {s : Store}
    (h : Accounts bodies settings Value.Returned is (.ok reply s))
    (awaited : ∀ v, reply = .ok v → ∃ i ∈ is, i.Awaited bodies settings v s) :
    Accounted bodies settings Value.Returned is s
      (applySurplus (evaluate bodies fuel) rounds settings call reply s) := by
  cases reply with
  | error fault => exact .pure h
  | ok v =>
    refine .onward (.event s (.surplus call.closure.name call.surplus.length)) ?_
    cases next : v.closure? with
    | some f =>
      cases v with
      | closure => exact apply_accounted explained h.calm_of_value _ _
      | _ => cases next
    | none =>
      have answered : applySurplus (evaluate bodies fuel) rounds settings call (.ok v) s =
          .ok (.error (.notAFunction v.typeName))
            (s.log [.event (.surplus call.closure.name call.surplus.length)]) := by
        cases v with
        | closure => cases next
        | _ => rfl
      cases h with
      | value calm returned =>
        obtain ⟨earlier, last, split, reply, done⟩ := returned next
        refine answered ▸ .pure (.fault split (calm.earlier split) (.notAFunction _) ?_)
        unfold Explains
        rw [reply]
        have other : ∀ f, v ≠ .closure f := by
          rintro f rfl
          cases next
        exact ⟨other, rfl, done ▸ awaited v rfl⟩

theorem body_accounted (calm : Calm is) (call : Call) (payload : Payload) (s : Store) :
    Accounted bodies settings Value.Returned is s
      ((evaluate bodies fuel (.invoke (.application call) payload) >>=
        finish (evaluate bodies fuel) rounds settings call) s) := by
  by_cases left : call.surplus = []
  · rw [finish_of_exact left, bind_pure]
    exact invoke_accounted _ _ calm s
  · rw [finish_of_excess left]
    cases run : evaluate bodies fuel (.invoke (.application call) payload) s with
    | error h t =>
      rw [Run.bind_of_error run]
      exact .of_halt calm run
    | ok reply t =>
      rw [Run.bind_of_ok run]
      -- what follows is accounted for with this body among the earlier ones
      let i : Invocation := ⟨.application call, payload, s, reply, t⟩
      have after : Accounted bodies settings Value.Returned (is ++ [i]) t
          ((settle (evaluate bodies fuel) rounds settings call.state reply >>=
            applySurplus (evaluate bodies fuel) rounds settings call) t) := by
        refine .bind (settle_accounted explained (Accounts.of_body (i := i) calm))
          fun settled u js resolved accounts => applySurplus_accounted explained accounts ?_
        rintro v rfl
        have finished : finishedReply (evaluate bodies fuel) rounds settings call payload s =
            .ok (.ok v) u := by
          refine (Run.bind_of_ok run).trans ?_
          rwa [if_neg (by rwa [List.isEmpty_iff])]
        exact ⟨i, by simp, call, rfl, left, finishedReply_ends finished⟩
      obtain ⟨js, course, accounts⟩ := after
      exact ⟨i :: js, .invoked (.refl s) (invoke_returns run) course,
        by rwa [List.append_cons]⟩

theorem runBody_accounted (calm : Calm is) (call : Call) (s : Store) :
    Accounted bodies settings Value.Returned is s
      (runBody (evaluate bodies fuel) rounds settings call s) := by
  refine .bind (forceArguments_accounted explained calm _ _ s) fun forced t js _ accounts => ?_
  cases forced with
  | error fault => exact .pure accounts.of_error
  | ok arguments =>
    obtain ⟨caller, u, presented⟩ := presentedCaller_ok call t
    exact .skip presented (.of_idles (.presentedCaller call) presented)
      (body_accounted explained accounts.calm_of_value call _ u)

theorem dispatch_accounted (calm : Calm is) (call : Call) (s : Store) :
    Accounted bodies settings Value.Returned is s
      (dispatch (evaluate bodies fuel) rounds settings call s) := by
  refine .skip (announce_eq settings call s) (.announce settings call s) ?_
  cases saturated : call.isSaturated with
  | true => exact runBody_accounted explained calm call _
  | false =>
    -- the answer is a closure, of which nothing is said
    rw [if_neg Bool.false_ne_true, bindSupplied_of_unsaturated saturated]
    exact .onward ⟨_, rfl, List.forall_mem_singleton.mpr rfl⟩
      (.pure (.value calm fun other => nomatch other))

end

theorem explained_evaluate (bodies : Bodies) (settings : Settings) (fuel : Nat) :
    Explained bodies settings (evaluate bodies fuel) := by
  induction fuel with
  | zero =>
    intro is calm call s
    exact .stopped calm
  | succ fuel ih => exact fun calm call s => dispatch_accounted ih calm call s

end Machine

/-- What a host is told of an application that comes out so. -/
def Outcome.told : Outcome Reply → Outcome (Except HostFault Value)
  | .ok (.ok v) t => .ok (.ok v) t
  | .ok (.error fault) t => .ok (.error (.callee fault)) t
  | .error h t => .error h t

theorem Outcome.told_eq_ok {o : Outcome Reply} {v : Value} {t : Store} :
    o.told = .ok (.ok v) t ↔ o = .ok (.ok v) t := by
  rcases o with ⟨v | fault, u⟩ | ⟨h, u⟩ <;> simp [told]

theorem Outcome.bare_told (o : Outcome Reply) : o.told.bare = o.bare := by
  rcases o with ⟨v | fault, u⟩ | ⟨h, u⟩ <;> rfl

namespace Closure

variable {eval : Evaluator} {rounds : Nat} {settings : Settings} {state : Value}
  {f : Closure Value} {arguments : List Value} {s : Store}

theorem execute_eq : f.execute eval rounds ⟨.currying settings, state⟩ arguments s =
    Outcome.told (apply eval rounds settings ⟨f, none, state, arguments⟩
      (s.log [.event (.foreignExecute f.target.name arguments.length)])) := by
  have entered : Run.emit (.foreignExecute f.name arguments.length) s =
      .ok () (s.log [.event (.foreignExecute f.target.name arguments.length)]) := rfl
  refine (Run.bind_of_ok entered).trans ?_
  cases run : apply eval rounds settings ⟨f, none, state, arguments⟩
      (s.log [.event (.foreignExecute f.target.name arguments.length)]) with
  | error h t => exact Run.bind_of_error run
  | ok reply t =>
    refine (Run.bind_of_ok run).trans ?_
    cases reply <;> rfl

end Closure

namespace Bodies

/-- The last body of an application that fails explains the fault; and if any body fails, it is the
last one, none before it has, and the application ends with its fault there and then. A foreign
host is told of that fault, unchanged. Where bodies run no bodies themselves, these are all that
are invoked. -/
theorem fault_explained (bodies : Bodies) (settings : Settings) (fuel rounds : Nat) :
    (∀ call s, let run := apply (evaluate bodies fuel) rounds settings call
      ∃ is, Course bodies s is (run.bare s) ∧
        (∀ fault t, run s = .ok (.error fault) t →
          ∃ earlier last, is = earlier ++ [last] ∧ Explains bodies settings is last fault t) ∧
        ∀ i ∈ is, ∀ failure, i.Fails failure →
          ∃ earlier, is = earlier ++ [i] ∧ Calm earlier ∧ run s = .ok (.error failure) i.done) ∧
    (∀ (f : Closure Value) state arguments s,
      let run := f.execute (evaluate bodies fuel) rounds ⟨.currying settings, state⟩ arguments
      run s = Outcome.told (apply (evaluate bodies fuel) rounds settings ⟨f, none, state, arguments⟩
        (s.log [.event (.foreignExecute f.target.name arguments.length)])) ∧
      ∃ is, Course bodies s is (run.bare s) ∧
        ∀ i ∈ is, ∀ failure, i.Fails failure →
          ∃ earlier, is = earlier ++ [i] ∧ Calm earlier ∧
            run s = .ok (.error (.callee failure)) i.done) ∧
    ∀ s is t, (∀ label payload, (bodies label payload).Within Request.Constructs fun _ => True) →
      Course bodies s is (.ok () t) →
        t.invocations = (is.map fun i => (i.callee, i.payload)).reverse ++ s.invocations := by
  have accounted (call s) : ∃ is,
      Course bodies s is (Run.bare (apply (evaluate bodies fuel) rounds settings call) s) ∧
      Accounts bodies settings Value.Returned is
        (apply (evaluate bodies fuel) rounds settings call s) := by
    have calm : Calm [] := fun _ mem => nomatch mem
    exact apply_accounted (explained_evaluate bodies settings fuel) calm call s
  refine ⟨fun call s => ?_, fun f state arguments s => ?_, fun s is t constructing course =>
    course.invocations constructing⟩
  · obtain ⟨is, course, accounts⟩ := accounted call s
    refine ⟨is, course, fun fault t run => ?_, fun i mem failure => accounts.failed mem⟩
    exact (run ▸ accounts).explained (apply_settled run)
  · let call : Call := ⟨f, none, state, arguments⟩
    let entered := s.log [.event (.foreignExecute f.target.name arguments.length)]
    obtain ⟨is, course, accounts⟩ := accounted call entered
    have onward := course.after (.event s (.foreignExecute f.target.name arguments.length))
    refine ⟨Closure.execute_eq, is, ?_, fun i mem failure fails => ?_⟩
    · rwa [Run.bare_of_eq Closure.execute_eq, Outcome.bare_told]
    · obtain ⟨earlier, split, calm, run⟩ := accounts.failed mem fails
      exact ⟨earlier, split, calm, Closure.execute_eq.trans (congrArg Outcome.told run)⟩

end Bodies

end Callable
