import Callable.Proofs.AmbientState
import Callable.Proofs.Truncation

/-! Tracing. A run that traces its applications is the run that does not, with an event entered
right after each application: `Bodies.tracing_only_observes`. The relation `Run.Traced` of the two
runs says nothing of the journal before them, so that it goes through every function of the
machine by the rules for `pure`, `>>=` and `record`. -/

namespace Callable

namespace Entry

def isApplyEvent : Entry → Bool
  | .event (.apply ..) => true
  | _ => false

/-- An entry as a run with tracing makes it, the newest first. -/
def traced : Entry → List Entry
  | .dispatched call =>
    [.event (.apply call.closure.target.name (call.closure.bound ++ call.arguments).length
      call.closure.signature.parameters.length), .dispatched call]
  | e => [e]

theorem filter_traced {since : List Entry} (silent : ∀ e ∈ since, e.isApplyEvent = false) :
    (since.flatMap traced).filter (fun e => !e.isApplyEvent) = since := by
  induction since with
  | nil => rfl
  | cons e since ih =>
    obtain ⟨plain, silent⟩ := List.forall_mem_cons.mp silent
    have here : e.traced.filter (fun e => !e.isApplyEvent) = [e] := by
      cases e with
      | event event => simp [traced, plain]
      | _ => rfl
    rw [List.flatMap_cons, List.filter_append, here, ih silent, List.singleton_append]

end Entry

def Outcome.withJournal {α : Type} (o : Outcome α) (journal : List Entry) : Outcome α :=
  match o with
  | .ok a t => .ok a { t with journal }
  | .error h t => .error h { t with journal }

/-- From whatever journal, `y` comes out as `x` does and enters the same, but for an event right
after each application. -/
def Run.Traced {α : Type} (x y : Run α) : Prop := ∀ s before, ∃ since,
  Run.journal x s = since ++ s.journal ∧ (∀ e ∈ since, e.isApplyEvent = false) ∧
  y { s with journal := before } =
    Outcome.withJournal (x s) (since.flatMap Entry.traced ++ before)

namespace Run.Traced

variable {α β : Type} {x y : Run α}

theorem of_apart (apart : ∀ s before, Run.journal x s = s.journal ∧
    x { s with journal := before } = Outcome.withJournal (x s) before) : Traced x x :=
  fun s before => ⟨[], (apart s before).1, fun _ mem => (nomatch mem), (apart s before).2⟩

theorem pure (a : α) : Traced (pure a) (pure a) := of_apart fun _ _ => ⟨rfl, rfl⟩

theorem throw (h : Halt) : Traced (α := α) (throw h) (throw h) := of_apart fun _ _ => ⟨rfl, rfl⟩

theorem record {e : Entry} (plain : e.isApplyEvent = false) (same : e.traced = [e]) :
    Traced (Run.record e) (Run.record e) := by
  refine fun s before => ⟨[e], rfl, List.forall_mem_singleton.mpr plain, ?_⟩
  rw [List.flatMap_singleton, same]
  rfl

theorem bind {f g : α → Run β} (h : Traced x y) (onward : ∀ a, Traced (f a) (g a)) :
    Traced (x >>= f) (y >>= g) := by
  intro s before
  obtain ⟨since, journal, silent, e⟩ := h s before
  cases hx : x s with
  | error halt t =>
    rw [hx] at e
    rw [journal_of_eq hx] at journal
    refine ⟨since, (journal_of_eq (bind_of_error hx)).trans journal, silent, ?_⟩
    rw [bind_of_error hx]
    exact bind_of_error e
  | ok a t =>
    rw [hx] at e
    rw [journal_of_eq hx] at journal
    obtain ⟨later, journal', silent', e'⟩ := onward a t (since.flatMap Entry.traced ++ before)
    refine ⟨later ++ since, ?_, List.forall_mem_append.mpr ⟨silent', silent⟩, ?_⟩
    · rw [journal_of_eq (bind_of_ok hx), List.append_assoc, ← journal]
      exact journal'
    · rw [bind_of_ok hx, List.flatMap_append, List.append_assoc]
      exact (bind_of_ok e).trans e'

theorem count (r : Resource) : Traced (Run.count r) (Run.count r) := of_apart fun _ _ => ⟨rfl, rfl⟩

theorem freshIdentity : Traced Run.freshIdentity Run.freshIdentity := of_apart fun _ _ => ⟨rfl, rfl⟩

theorem newClosure (target : Target) (scope : Option (Scope Value)) (signature : Signature)
    (bound carried : List Value) : Traced (Run.newClosure target scope signature bound carried)
      (Run.newClosure target scope signature bound carried) := by
  unfold Run.newClosure
  by_cases many : signature.arity < bound.length
  · rw [if_pos many]
    exact .bind (.throw _) fun _ => .bind (.count _) fun _ => .bind .freshIdentity fun _ => .pure _
  · rw [if_neg many]
    exact .bind (.count _) fun _ => .bind .freshIdentity fun _ => .pure _

theorem bindSupplied (call : Call) :
    Traced (Machine.bindSupplied call) (Machine.bindSupplied call) :=
  .bind (.record rfl rfl) fun _ => .bind (.newClosure _ _ _ _ _) fun _ => .pure _

theorem presentedCaller (call : Call) :
    Traced (Machine.presentedCaller call) (Machine.presentedCaller call) := by
  unfold Machine.presentedCaller
  cases call.caller with
  | some caller => exact .pure _
  | none =>
    cases call.closure.signature.passesCaller with
    | true =>
      exact .bind (.record rfl rfl) fun _ => .bind (.bind (.count _) fun _ => .pure _) fun _ =>
        .pure _
    | false => exact .pure _

theorem grows (h : Traced x y) : y.Extends := by
  intro s
  obtain ⟨since, -, -, e⟩ := h s s.journal
  rw [journal_of_eq (show y s = _ from e)]
  cases x s <;> exact List.suffix_append _ _

end Run.Traced

abbrev Settings.silent (limit : Option UInt64) : Settings := ⟨false, limit⟩

abbrev Settings.tracing (limit : Option UInt64) : Settings := ⟨true, limit⟩

namespace Machine

open Settings (silent tracing)

/-- What an evaluator does with tracing is what it does without, traced. -/
structure Traces (limit : Option UInt64) (eval : Evaluator) : Prop where
  dispatch : ∀ call, Run.Traced (eval (.dispatch (silent limit) call))
    (eval (.dispatch (tracing limit) call))
  invoke : ∀ callee payload, Run.Traced (eval (.invoke callee payload))
    (eval (.invoke callee payload))

namespace Traces

variable {limit : Option UInt64} {eval : Evaluator} {rounds : Nat} {state : Value}
  (traces : Traces limit eval)

include traces

omit traces in
theorem pursue {performed : UInt64} (onward : ∀ request, Run.Traced
      (callLoop eval (silent limit) state rounds performed request)
      (callLoop eval (tracing limit) state rounds performed request)) (reply : Reply) :
    Run.Traced (pursue eval rounds (silent limit) state performed reply)
      (pursue eval rounds (tracing limit) state performed reply) := by
  rcases Settled.or_tailCall reply with settled | ⟨next, rfl⟩
  · rw [pursue_of_settled settled, pursue_of_settled settled]
    exact .pure reply
  · exact onward next

theorem callLoop (performed : UInt64) (request : TailCall) :
    Run.Traced (callLoop eval (silent limit) state rounds performed request)
      (callLoop eval (tracing limit) state rounds performed request) := by
  induction rounds generalizing performed request with
  | zero => exact .throw _
  | succ rounds ih =>
    -- the limit is the same for both, and is checked before anything is entered
    cases exceeded : (silent limit).exceeded? (performed + 1) with
    | some reached =>
      have exceeded' : (tracing limit).exceeded? (performed + 1) = some reached := exceeded
      rw [callLoop_of_exceeded exceeded, callLoop_of_exceeded exceeded']
      exact .pure _
    | none =>
      have within' : (tracing limit).exceeded? (performed + 1) = none := exceeded
      rw [callLoop_of_within exceeded, callLoop_of_within within']
      exact .bind (traces.dispatch _) fun reply => pursue (ih _) reply

theorem settle (reply : Reply) :
    Run.Traced (settle eval rounds (silent limit) state reply)
      (settle eval rounds (tracing limit) state reply) := by
  rcases Settled.or_tailCall reply with settled | ⟨request, rfl⟩
  · rw [settle_of_settled settled, settle_of_settled settled]
    exact .pure reply
  · rw [settle_tailCall, settle_tailCall]
    exact .bind (.record rfl rfl) fun _ => traces.callLoop 0 request

theorem apply (call : Call) :
    Run.Traced (apply eval rounds (silent limit) call) (apply eval rounds (tracing limit) call) :=
  .bind (traces.dispatch call) fun reply => traces.settle reply

theorem applyInFrame (call : Call) : Run.Traced (applyInFrame eval rounds (silent limit) call)
    (applyInFrame eval rounds (tracing limit) call) := by
  cases strategy : call.closure.signature.strategy with
  | loop =>
    rw [applyInFrame_of_loop strategy, applyInFrame_of_loop strategy]
    exact traces.apply call
  | direct =>
    rw [applyInFrame_of_direct strategy, applyInFrame_of_direct strategy]
    exact traces.dispatch call

theorem force (t : Suspension Value) : Run.Traced (force eval rounds (silent limit) t state)
    (force eval rounds (tracing limit) t state) :=
  .bind (traces.invoke _ _) fun reply => traces.settle reply

theorem forceValue (steps : Nat) (v : Value) :
    Run.Traced (forceValue eval rounds (silent limit) state steps v)
      (forceValue eval rounds (tracing limit) state steps v) := by
  induction steps generalizing v with
  | zero =>
    cases v with
    | suspension => exact .throw _
    | _ => exact .pure _
  | succ steps ih =>
    cases v with
    | suspension t =>
      refine .bind (traces.force t) fun reply => ?_
      cases reply with
      | ok v => exact ih v
      | error fault => exact .pure _
    | _ => exact .pure _

theorem forceArgument (p : Parameter) (v : Value) :
    Run.Traced (forceArgument eval rounds (silent limit) state p v)
      (forceArgument eval rounds (tracing limit) state p v) := by
  unfold Machine.forceArgument
  cases p.isSuspended with
  | true => exact .pure _
  | false => exact traces.forceValue rounds v

theorem forceArguments (ps : List Parameter) (vs : List Value) :
    Run.Traced (forceArguments eval rounds (silent limit) state ps vs)
      (forceArguments eval rounds (tracing limit) state ps vs) := by
  induction ps generalizing vs with
  | nil => cases vs <;> exact .pure _
  | cons p ps ih =>
    cases vs with
    | nil => exact .pure _
    | cons v vs =>
      refine .bind (traces.forceArgument p v) fun first => ?_
      cases first with
      | error fault => exact .pure _
      | ok w =>
        refine .bind (ih vs) fun rest => ?_
        cases rest <;> exact .pure _

theorem applySurplus (call : Call) (reply : Reply) :
    Run.Traced (applySurplus eval rounds (silent limit) call reply)
      (applySurplus eval rounds (tracing limit) call reply) := by
  cases reply with
  | error fault => exact .pure _
  | ok v =>
    refine .bind (.record rfl rfl) fun _ => ?_
    cases v with
    | closure next => exact traces.apply _
    | _ => exact .pure _

theorem finish (call : Call) (reply : Reply) :
    Run.Traced (finish eval rounds (silent limit) call reply)
      (finish eval rounds (tracing limit) call reply) := by
  by_cases left : call.surplus = []
  · rw [finish_of_exact left, finish_of_exact left]
    exact .pure reply
  · rw [finish_of_excess left, finish_of_excess left]
    exact .bind (traces.settle reply) fun settled => traces.applySurplus call settled

theorem runBody (call : Call) : Run.Traced (runBody eval rounds (silent limit) call)
    (runBody eval rounds (tracing limit) call) := by
  refine .bind (traces.forceArguments _ _) fun forced => ?_
  cases forced with
  | error fault => exact .pure _
  | ok arguments =>
    refine .bind (.presentedCaller call) fun caller => ?_
    exact .bind (traces.invoke _ _) fun reply => traces.finish call reply

omit traces in
theorem announced (limit : Option UInt64) (call : Call) :
    Run.Traced (announce (silent limit) call) (announce (tracing limit) call) :=
  fun _ _ => ⟨[.dispatched call], rfl, List.forall_mem_singleton.mpr rfl, rfl⟩

theorem step_dispatch (call : Call) :
    Run.Traced (Machine.dispatch eval rounds (silent limit) call)
      (Machine.dispatch eval rounds (tracing limit) call) := by
  refine .bind (announced limit call) fun _ => ?_
  cases call.isSaturated with
  | true => exact traces.runBody call
  | false => exact .bindSupplied call

theorem answer {r : Request} (undispatched : r.Undispatched) :
    Run.Traced (answer eval rounds r) (answer eval rounds r) := by
  cases r with
  | newClosure =>
    exact .bind (.newClosure _ _ _ _ _) fun _ => .bind (.record rfl rfl) fun _ => .pure _
  | newSuspension =>
    exact .bind (.record rfl rfl) fun _ => .bind (.count _) fun _ => .bind .freshIdentity fun _ =>
      .pure _
  | newScope | newCaller =>
    exact .bind (.record rfl rfl) fun _ => .bind (.count _) fun _ => .pure _
  | note => exact .record rfl rfl
  | apply | applyInFrame | force => exact undispatched.elim
  | resume | invoke => exact traces.invoke _ _

theorem perform {α : Type} {p : Program α} {accepted : α → Prop}
    (undispatched : p.Within Request.Undispatched accepted) :
    Run.Traced (p.perform (Machine.answer eval rounds))
      (p.perform (Machine.answer eval rounds)) := by
  induction p with
  | done a => exact .pure a
  | ask r next ih =>
    exact .bind (traces.answer undispatched.1) fun a => ih a (undispatched.2 a)

theorem run (entrance : Entrance) :
    Run.Traced (entrance.run (silent limit) eval rounds)
      (entrance.run (tracing limit) eval rounds) := by
  cases entrance with
  | apply call => exact traces.apply call
  | applyInFrame call => exact traces.applyInFrame call
  | force t state => exact traces.force t

end Traces

theorem traces_evaluate {bodies : Bodies} (undispatched : bodies.Undispatched)
    (limit : Option UInt64) (fuel : Nat) : Traces limit (evaluate bodies fuel) := by
  induction fuel with
  | zero => exact ⟨fun _ => .throw _, fun _ _ => .throw _⟩
  | succ fuel ih =>
    refine ⟨fun call => ih.step_dispatch call, fun callee payload => ?_⟩
    exact .bind (.record rfl rfl) fun _ => ih.perform (undispatched _ _)

end Machine

/-- Next after that journal stands the application of the call, and its event at once. -/
def Outcome.Opens {α : Type} (o : Outcome α) (journal : List Entry) (call : Call) : Prop :=
  (Entry.dispatched call).traced ++ journal <:+ o.store.journal

theorem Outcome.Opens.bind {α β : Type} {x : Run α} {f : α → Run β} {s : Store} {call : Call}
    (h : Opens (x s) s.journal call) (grows : ∀ a, (f a).Extends) :
    Opens ((x >>= f) s) s.journal call :=
  List.IsSuffix.trans h (Run.Extends.journal_bind grows x s)

namespace Machine

open Settings (silent tracing)

section

variable {bodies : Bodies} (undispatched : bodies.Undispatched) {limit : Option UInt64}
  {fuel rounds : Nat} {state : Value}

include undispatched

theorem dispatch_opens (call : Call) (s : Store) :
    Outcome.Opens (evaluate bodies (fuel + 1) (.dispatch (tracing limit) call) s) s.journal
      call := by
  refine Run.Extends.journal_bind (fun _ => ?_) (announce (tracing limit) call) s
  cases call.isSaturated with
  | true => exact ((traces_evaluate undispatched limit fuel).runBody call).grows
  | false => exact (Run.Idles.bindSupplied call).grows

theorem apply_opens (call : Call) (s : Store) :
    Outcome.Opens (apply (evaluate bodies (fuel + 1)) rounds (tracing limit) call s) s.journal
      call :=
  .bind (dispatch_opens undispatched call s) fun reply =>
    ((traces_evaluate undispatched limit _).settle reply).grows

theorem callLoop_opens {performed : UInt64} {request : TailCall}
    (within : (tracing limit).exceeded? (performed + 1) = none) (s : Store) :
    Outcome.Opens (callLoop (evaluate bodies (fuel + 1)) (tracing limit) state (rounds + 1)
      performed request s) s.journal (requested state request) := by
  have traces := traces_evaluate undispatched limit (fuel + 1)
  rw [callLoop_of_within within]
  exact .bind (dispatch_opens undispatched _ s) fun reply =>
    (Traces.pursue (traces.callLoop _) reply).grows

theorem applySurplus_opens (call : Call) (next : Closure Value) (s : Store) :
    Outcome.Opens
      (applySurplus (evaluate bodies (fuel + 1)) rounds (tracing limit) call
        (.ok (.closure next)) s)
      (.event (.surplus call.closure.target.name call.leftOver.length) :: s.journal)
      ⟨next, none, call.state, call.leftOver⟩ :=
  apply_opens undispatched ⟨next, none, call.state, call.leftOver⟩
    (s.log [.event (.surplus call.closure.target.name call.leftOver.length)])

end

end Machine

namespace Bodies

open Machine
open Settings (silent tracing)

/-- With tracing on a run comes out as with tracing off, in the same store up to the journal; and
its new entries are those without tracing, each application followed at once by its event. An
application, an iteration of a loop within the limit and the application of a surplus begin with
such a pair; an iteration beyond the limit enters nothing. -/
theorem tracing_only_observes {bodies : Bodies} (undispatched : bodies.Undispatched)
    (limit : Option UInt64) (fuel rounds : Nat) :
    (∀ (entrance : Entrance) s, ∃ seen,
      entrance.run (tracing limit) (evaluate bodies fuel) rounds s =
        Outcome.withJournal (entrance.run (silent limit) (evaluate bodies fuel) rounds s)
          (seen ++ s.journal) ∧
      Run.journal (entrance.run (silent limit) (evaluate bodies fuel) rounds) s =
        seen.filter (fun e => !e.isApplyEvent) ++ s.journal ∧
      seen = (seen.filter fun e => !e.isApplyEvent).flatMap Entry.traced) ∧
    (∀ call s, Outcome.Opens
      (evaluate bodies (fuel + 1) (.dispatch (tracing limit) call) s) s.journal call) ∧
    (∀ call s, Outcome.Opens
      (apply (evaluate bodies (fuel + 1)) rounds (tracing limit) call s) s.journal call) ∧
    (∀ state performed request s,
      let loop := callLoop (evaluate bodies (fuel + 1)) (tracing limit) state (rounds + 1)
        performed request s
      match (tracing limit).exceeded? (performed + 1) with
      | some limit => loop = .ok (.error (.loopLimit limit)) s
      | none => Outcome.Opens loop s.journal (requested state request)) ∧
    ∀ call next s, Outcome.Opens
      (applySurplus (evaluate bodies (fuel + 1)) rounds (tracing limit) call
        (.ok (.closure next)) s)
      (.event (.surplus call.closure.target.name call.leftOver.length) :: s.journal)
      ⟨next, none, call.state, call.leftOver⟩ := by
  refine ⟨fun entrance s => ?_, dispatch_opens undispatched, apply_opens undispatched,
    fun state performed request s => ?_, applySurplus_opens undispatched⟩
  · have traced : Run.Traced (entrance.run (silent limit) (evaluate bodies fuel) rounds)
        (entrance.run (tracing limit) (evaluate bodies fuel) rounds) :=
      (traces_evaluate undispatched limit fuel).run entrance
    obtain ⟨since, journal, silent, same⟩ := traced s s.journal
    have filtered := Entry.filter_traced silent
    exact ⟨since.flatMap Entry.traced, same, by rw [filtered, journal], by rw [filtered]⟩
  · dsimp only
    split
    next limit' exceeded => exact congrFun (callLoop_of_exceeded exceeded) s
    next within => exact callLoop_opens undispatched within s

def boundDescent : Call :=
  ⟨⟨0, ⟨"descend", 2, none⟩, none, ⟨.loop, .withheld, [.plain 0 "depth"], rfl⟩, [.unit], []⟩,
    none, .unit, []⟩

theorem descent_observed : descending.Undispatched ∧ ∃ seen,
    Machine.apply (evaluate descending 9) 9 (tracing (some 1)) boundDescent {} =
      Outcome.withJournal
        (Machine.apply (evaluate descending 9) 9 (silent (some 1)) boundDescent {})
        (seen ++ []) ∧
    seen.filter Entry.isApplyEvent =
      [.event (.apply "descend" 0 0), .event (.apply "descend" 1 1)] := by
  obtain ⟨seen, same, -, -⟩ := (tracing_only_observes descending_undispatched (some 1) 9 9).1
    (.apply boundDescent) {}
  refine ⟨descending_undispatched, seen, same, ?_⟩
  have journal : seen ++ [] = Run.journal
      (Machine.apply (evaluate descending 9) 9 (tracing (some 1)) boundDescent) {} :=
    (Run.journal_of_eq same).symm
  rw [← List.append_nil seen, journal]
  rfl

end Bodies

end Callable
