import Callable.Proofs.Identity.Made
import Callable.Proofs.Stages

/-! Identities. Closures and suspensions are equal exactly if they are copies of what one
construction made. -/

namespace Callable

open Machine

def Dispatcher.replies : Dispatcher → Call → List Value
  | .currying _, _ => []
  | .host answer, call => Reply.values (answer call)

def Request.replies : Request → List Value
  | .apply dispatcher call | .applyInFrame dispatcher call => dispatcher.replies call
  | _ => []

/-- The program makes up no closures and no suspensions: those that it hands on, or has a host hand
on, are copies of what it is given or answered. -/
def Program.Genuine : Program Reply → List Value → Prop
  | .done reply, given => Copied given (Reply.values reply)
  | .ask r next, given => Copied given (r.values ++ r.replies) ∧
      ∀ answer, (next answer).Genuine (r.answered answer ++ given)

/-- Besides what they are called with, bodies may have the given values at hand. -/
def Bodies.Genuine (bodies : Bodies) (given : List Value) : Prop :=
  ∀ label payload, (bodies label payload).Genuine (payload.values ++ given)

namespace Call

variable {made : List Value} {call : Call} (h : MadeIn made call.values)

include h

theorem madeIn_closure : (Value.closure call.closure).MadeIn made := by
  simp only [Call.values, madeIn_cons, madeIn_append] at h
  exact h.1

theorem madeIn_caller : MadeIn made (call.caller.elim [] Caller.values) := by
  simp only [Call.values, madeIn_cons, madeIn_append] at h
  exact h.2.1

theorem madeIn_state : call.state.MadeIn made := by
  simp only [Call.values, madeIn_cons, madeIn_append] at h
  exact h.2.2.1

theorem madeIn_supplied : MadeIn made call.supplied := by
  have closure := Value.madeIn_closure.mp (madeIn_closure h)
  simp only [Call.values, madeIn_cons, madeIn_append] at h
  exact madeIn_append.mpr ⟨closure.2.2.1, h.2.2.2⟩

theorem madeIn_positional : MadeIn made call.positional :=
  (madeIn_supplied h).of_subset (List.take_subset _ _)

theorem madeIn_surplus : MadeIn made call.surplus := by
  have closure := Value.madeIn_closure.mp (madeIn_closure h)
  exact madeIn_append.mpr ⟨closure.2.2.2, (madeIn_supplied h).of_subset (List.drop_subset _ _)⟩

end Call

namespace Machine

def forcedValues : Except Fault (List Value) → List Value
  | .ok vs => vs
  | .error fault => fault.values

/-- Tasks on copies come to copies. -/
structure Copies (given : List Value) (eval : Evaluator) : Prop where
  dispatch : ∀ settings {made call}, MadeIn made call.values →
    Run.Makes given made Reply.values (eval (.dispatch settings call))
  invoke : ∀ {made callee payload}, MadeIn made callee.values → MadeIn made payload.values →
    Run.Makes given made Reply.values (eval (.invoke callee payload))

namespace Copies

variable {given made : List Value} {eval : Evaluator} {rounds : Nat} {settings : Settings}
  {state : Value} (copies : Copies given eval)

include copies

theorem callLoop (hstate : state.MadeIn made) (performed : UInt64) {request : TailCall}
    (h : MadeIn made (Fault.tailCall request).values) :
    Run.Makes given made Reply.values
      (callLoop eval settings state rounds performed request) := by
  induction rounds generalizing made performed request with
  | zero => exact .throw .exhausted
  | succ rounds ih =>
    cases exceeded : settings.exceeded? (performed + 1) with
    | some _ =>
      rw [callLoop_of_exceeded exceeded]
      exact .pure madeIn_nil
    | none =>
      rw [callLoop_of_within exceeded]
      have next : MadeIn made (requested state request).values := by
        simp only [Fault.values, madeIn_cons] at h
        simp only [requested, Call.values, Option.elim_none, List.nil_append, madeIn_cons]
        exact ⟨h.1, hstate, h.2⟩
      refine .bind (copies.dispatch settings next) fun more reply h => ?_
      rcases Settled.or_tailCall reply with settled | ⟨request, rfl⟩
      · rw [pursue_of_settled settled]
        exact .pure h
      · exact ih (hstate.mono more) _ h

theorem settle (hstate : state.MadeIn made) {reply : Reply} (h : MadeIn made (Reply.values reply)) :
    Run.Makes given made Reply.values (settle eval rounds settings state reply) := by
  rcases Settled.or_tailCall reply with settled | ⟨request, rfl⟩
  · rw [settle_of_settled settled]
    exact .pure h
  · rw [settle_tailCall]
    exact .emit (copies.callLoop hstate 0 h)

theorem apply {call : Call} (h : MadeIn made call.values) :
    Run.Makes given made Reply.values (apply eval rounds settings call) :=
  .bind (copies.dispatch settings h) fun more _ =>
    copies.settle ((call.madeIn_state h).mono more)

theorem applyInFrame {call : Call} (h : MadeIn made call.values) :
    Run.Makes given made Reply.values (applyInFrame eval rounds settings call) := by
  cases strategy : call.closure.signature.strategy with
  | loop =>
    rw [applyInFrame_of_loop strategy]
    exact copies.apply h
  | direct =>
    rw [applyInFrame_of_direct strategy]
    exact copies.dispatch settings h

theorem resume {t : Suspension Value} (h : (Value.suspension t).MadeIn made)
    (hstate : state.MadeIn made) :
    Run.Makes given made Reply.values (resume eval t state) := by
  refine copies.invoke (by simpa [Callee.values] using h) ?_
  simpa [Payload.ofSuspension, Payload.values, hstate] using (Value.madeIn_suspension.mp h).2

theorem force {t : Suspension Value} (h : (Value.suspension t).MadeIn made)
    (hstate : state.MadeIn made) :
    Run.Makes given made Reply.values (force eval rounds settings t state) :=
  .bind (copies.resume h hstate) fun more _ => copies.settle (hstate.mono more)

theorem forceValue (hstate : state.MadeIn made) (steps : Nat) {v : Value} (h : v.MadeIn made) :
    Run.Makes given made Reply.values (forceValue eval rounds settings state steps v) := by
  have itself (made) {v : Value} (h : v.MadeIn made) : MadeIn made (Reply.values (.ok v)) :=
    madeIn_cons.mpr ⟨h, madeIn_nil⟩
  induction steps generalizing made v with
  | zero =>
    cases v with
    | suspension t => exact .throw .exhausted
    | _ => exact .pure (itself made h)
  | succ steps ih =>
    cases v with
    | suspension t =>
      refine .bind (copies.force h hstate) fun more reply h => ?_
      cases reply with
      | ok w => exact ih (hstate.mono more) (madeIn_cons.mp h).1
      | error fault => exact .pure h
    | _ => exact .pure (itself made h)

theorem forceArgument (hstate : state.MadeIn made) (p : Parameter) {v : Value}
    (h : v.MadeIn made) :
    Run.Makes given made Reply.values (forceArgument eval rounds settings state p v) := by
  unfold Machine.forceArgument
  cases p.isSuspended with
  | true => exact .pure (madeIn_cons.mpr ⟨h, madeIn_nil⟩)
  | false => exact copies.forceValue hstate rounds h

theorem forceArguments (hstate : state.MadeIn made) (ps : List Parameter) {vs : List Value}
    (h : MadeIn made vs) :
    Run.Makes given made forcedValues (forceArguments eval rounds settings state ps vs) := by
  induction ps generalizing made vs with
  | nil => cases vs <;> exact .pure h
  | cons p ps ih =>
    cases vs with
    | nil => exact .pure h
    | cons v vs =>
      obtain ⟨first, rest⟩ := madeIn_cons.mp h
      refine .bind (copies.forceArgument hstate p first) fun more answer h => ?_
      cases answer with
      | error fault => exact .pure h
      | ok w =>
        refine .bind (ih (hstate.mono more) (rest.mono more)) fun more' forced h' => ?_
        cases forced with
        | error fault => exact .pure h'
        | ok ws => exact .pure (madeIn_cons.mpr ⟨(madeIn_cons.mp h).1.mono more', h'⟩)

theorem applySurplus {call : Call} (h : MadeIn made call.values) {reply : Reply}
    (h' : MadeIn made (Reply.values reply)) :
    Run.Makes given made Reply.values (applySurplus eval rounds settings call reply) := by
  cases reply with
  | error fault => exact .pure h'
  | ok v =>
    refine .emit ?_
    cases v with
    | closure next =>
      refine copies.apply ?_
      simp only [Call.values, Option.elim_none, List.nil_append, madeIn_cons]
      exact ⟨(madeIn_cons.mp h').1, call.madeIn_state h, call.madeIn_surplus h⟩
    | _ => exact .pure madeIn_nil

theorem finish {call : Call} (h : MadeIn made call.values) {reply : Reply}
    (h' : MadeIn made (Reply.values reply)) :
    Run.Makes given made Reply.values (finish eval rounds settings call reply) := by
  by_cases left : call.surplus = []
  · rw [finish_of_exact left]
    exact .pure h'
  · rw [finish_of_excess left]
    exact .bind (copies.settle (call.madeIn_state h) h') fun more _ =>
      copies.applySurplus (h.mono more)

omit copies in
theorem presentedCaller {call : Call} (h : MadeIn made call.values) :
    Run.Makes given made (fun caller => caller.elim [] Caller.values)
      (presentedCaller call) := by
  have copy := call.madeIn_caller h
  unfold Machine.presentedCaller
  cases at_hand : call.caller with
  | some caller =>
    rw [at_hand] at copy
    exact .pure copy
  | none =>
    cases call.closure.signature.passesCaller with
    | true =>
      refine .emit (.of_apart (fun _ => ⟨rfl, rfl⟩) fun _ _ _ e => ?_)
      cases e
      exact madeIn_nil
    | false => exact .pure madeIn_nil

theorem runBody {call : Call} (h : MadeIn made call.values) :
    Run.Makes given made Reply.values (runBody eval rounds settings call) := by
  refine .bind (copies.forceArguments (call.madeIn_state h) _ (call.madeIn_positional h))
    fun more forced h' => ?_
  cases forced with
  | error fault => exact .pure h'
  | ok arguments =>
    refine .bind (presentedCaller (h.mono more)) fun {latest} more' caller h'' => ?_
    replace h := (h.mono more).mono more'
    have payload : MadeIn latest
        (Payload.ofClosure call.closure caller call.state arguments).values := by
      have closure := Value.madeIn_closure.mp (call.madeIn_closure h)
      simp only [Payload.ofClosure, Payload.values, madeIn_append, madeIn_cons]
      exact ⟨⟨closure.2.1, h''⟩, call.madeIn_state h, h'.mono more'⟩
    have callee : MadeIn latest (Callee.application call).values := h
    exact .bind (copies.invoke callee payload) fun more'' _ => copies.finish (h.mono more'')

omit copies in
theorem bindSupplied {call : Call} (h : MadeIn made call.values) :
    Run.Makes given made Reply.values (bindSupplied call) := by
  have closure := Value.madeIn_closure.mp (call.madeIn_closure h)
  have bound := madeIn_append.mpr ⟨closure.2.1, call.madeIn_supplied h⟩
  exact .emit (.bind (.newClosure (madeIn_append.mpr ⟨bound, closure.2.2.2⟩)) fun _ _ h => .pure h)

theorem step_dispatch {call : Call} (h : MadeIn made call.values) :
    Run.Makes given made Reply.values (Machine.dispatch eval rounds settings call) := by
  have announced : Run.Makes given made (fun _ => []) (announce settings call) := by
    refine .record h ?_
    cases settings.traceCalls with
    | true => exact .emit (.pure madeIn_nil)
    | false => exact .pure madeIn_nil
  refine .bind announced fun more _ _ => ?_
  split
  · exact copies.runBody (h.mono more)
  · exact bindSupplied (h.mono more)

theorem dispatcherApply {dispatcher : Dispatcher} {call : Call} (h : MadeIn made call.values)
    (replies : MadeIn made (dispatcher.replies call)) :
    Run.Makes given made Reply.values (dispatcherApply eval rounds dispatcher call) := by
  cases dispatcher with
  | currying settings => exact copies.apply h
  | host => exact .pure replies

theorem dispatcherApplyInFrame {dispatcher : Dispatcher} {call : Call}
    (h : MadeIn made call.values) (replies : MadeIn made (dispatcher.replies call)) :
    Run.Makes given made Reply.values (dispatcherApplyInFrame eval rounds dispatcher call) := by
  cases dispatcher with
  | currying settings => exact copies.applyInFrame h
  | host => exact .pure replies

theorem execute {host : Host} {f : Closure Value} {arguments : List Value}
    (h : MadeIn made (.closure f :: host.defaultState :: arguments))
    (replies : MadeIn made (host.dispatcher.replies ⟨f, none, host.defaultState, arguments⟩)) :
    Run.Makes given made HostFault.told (f.execute eval rounds host arguments) := by
  refine .emit (.bind (copies.dispatcherApply h replies) fun more reply h => ?_)
  cases reply <;> exact .pure h

theorem answer {r : Request} (h : MadeIn made (r.values ++ r.replies)) :
    Run.Makes given made r.answered (answer eval rounds r) := by
  obtain ⟨h, replies⟩ := madeIn_append.mp h
  cases r with
  | newClosure target scope signature bound carried =>
    exact .bind (.newClosure h) fun more f h => .record madeIn_nil (.pure h)
  | newSuspension target scope => exact .record madeIn_nil (.newSuspension h)
  | newScope parent bindings =>
    refine .record madeIn_nil (.of_apart (fun _ => ⟨rfl, rfl⟩) fun _ _ _ e => ?_)
    cases e
    show MadeIn made (Scope.within parent bindings).values
    rwa [Scope.values_within]
  | newCaller scope name location =>
    refine .record madeIn_nil (.of_apart (fun _ => ⟨rfl, rfl⟩) fun _ _ _ e => ?_)
    cases e
    exact h
  | note => exact .record madeIn_nil (.pure madeIn_nil)
  | apply => exact copies.dispatcherApply h replies
  | applyInFrame => exact copies.dispatcherApplyInFrame h replies
  | force settings t state =>
    simp only [Request.values, madeIn_cons] at h
    exact copies.force h.1 h.2.1
  | resume t state =>
    simp only [Request.values, madeIn_cons] at h
    exact copies.resume h.1 h.2.1
  | invoke target payload =>
    have callee : MadeIn made (Callee.direct target).values := madeIn_nil
    exact copies.invoke callee h

theorem perform {p : Program Reply} {known : List Value} (genuine : p.Genuine known)
    (h : MadeIn made known) :
    Run.Makes given made Reply.values (p.perform (Machine.answer eval rounds)) := by
  induction p generalizing made known with
  | done reply => exact .pure (genuine.madeIn h)
  | ask r next ih =>
    obtain ⟨copied, onward⟩ := genuine
    refine .bind (copies.answer (copied.madeIn h)) fun more a h' => ?_
    exact ih a (onward a) (madeIn_append.mpr ⟨h', h.mono more⟩)

end Copies

theorem copies_evaluate {bodies : Bodies} {given : List Value} (genuine : bodies.Genuine given)
    (fuel : Nat) : Copies given (evaluate bodies fuel) := by
  induction fuel with
  | zero => exact ⟨fun _ _ _ _ => .throw .exhausted, fun _ _ => .throw .exhausted⟩
  | succ fuel ih =>
    refine ⟨fun settings made call h => ih.step_dispatch h, fun {made callee payload} h h' => ?_⟩
    refine .record (madeIn_append.mpr ⟨h, h'⟩) (.of_given fun at_hand => ?_)
    exact ih.perform (genuine _ _) (madeIn_append.mpr ⟨h', at_hand⟩)

end Machine

/-- What someone comes to have who begins in the store with the given values, and in which store:
by copying, by binding more to a copy, by what a body may ask for, and as a host. Runs may be cut
off at any time. -/
inductive Reached (bodies : Bodies) (given : List Value) (s : Store) :
    List Value → Store → Prop where
  | begin : Reached bodies given s given s
  | copy {known t vs} (earlier : Reached bodies given s known t) (copied : Copied known vs) :
      Reached bodies given s (vs ++ known) t
  | rebind {known t f bound} (earlier : Reached bodies given s known t)
      (copied : Copied known (.closure f :: bound)) :
      Reached bodies given s
        (Outcome.answered (fun g => [.closure g]) (Run.rebind f bound t) ++ known)
        (Outcome.store (Run.rebind f bound t))
  | ask {known t} (r : Request) (fuel rounds : Nat) (earlier : Reached bodies given s known t)
      (copied : Copied known (r.values ++ r.replies)) :
      Reached bodies given s
        (Outcome.answered r.answered (answer (evaluate bodies fuel) rounds r t) ++ known)
        (Outcome.store (answer (evaluate bodies fuel) rounds r t))
  | execute {known t host arguments fuel rounds} {f : Closure Value}
      (earlier : Reached bodies given s known t)
      (copied : Copied known (.closure f :: host.defaultState :: arguments ++
        host.dispatcher.replies ⟨f, none, host.defaultState, arguments⟩)) :
      Reached bodies given s (Outcome.answered HostFault.told
          (f.execute (evaluate bodies fuel) rounds host arguments t) ++ known)
        (Outcome.store (f.execute (evaluate bodies fuel) rounds host arguments t))

theorem Reached.made {bodies : Bodies} {given known made : List Value} {s t : Store}
    (genuine : bodies.Genuine given) (begun : s.Made given made)
    (reached : Reached bodies given s known t) :
    ∃ made', made <+: made' ∧ t.Made given made' ∧ MadeIn made' known := by
  induction reached with
  | begin => exact ⟨made, List.prefix_refl made, begun, begun.given⟩
  | copy _ copied ih =>
    obtain ⟨made', more, store, at_hand⟩ := ih
    exact ⟨made', more, store, madeIn_append.mpr ⟨copied.madeIn at_hand, at_hand⟩⟩
  | rebind _ copied ih =>
    obtain ⟨made', more, store, at_hand⟩ := ih
    obtain ⟨source, bound⟩ := madeIn_cons.mp (copied.madeIn at_hand)
    obtain ⟨-, scope, -, carried⟩ := Value.madeIn_closure.mp source
    have parts := madeIn_append.mpr ⟨madeIn_append.mpr ⟨scope, bound⟩, carried⟩
    exact (Run.Makes.newClosure parts).reach store more at_hand
  | ask r fuel rounds _ copied ih =>
    obtain ⟨made', more, store, at_hand⟩ := ih
    have makes : Run.Makes given made' r.answered (answer (evaluate bodies fuel) rounds r) :=
      (copies_evaluate genuine fuel).answer (copied.madeIn at_hand)
    exact makes.reach store more at_hand
  | @execute _ _ host arguments fuel rounds f _ copied ih =>
    obtain ⟨made', more, store, at_hand⟩ := ih
    obtain ⟨supplied, replies⟩ := madeIn_append.mp (copied.madeIn at_hand)
    have makes : Run.Makes given made' HostFault.told
        (f.execute (evaluate bodies fuel) rounds host arguments) :=
      (copies_evaluate genuine fuel).execute supplied replies
    exact makes.reach store more at_hand

def Present (known : List Value) (t : Store) (v : Value) : Prop :=
  ∃ u, (u ∈ known ∨ ∃ e ∈ t.journal, u ∈ e.values) ∧ u.Holds v

/-- From the one store to the other the value is made: it is the last one in the list of what was
made, and equal to nothing that existed before. -/
structure New (known made : List Value) (t : Store) (v : Value) (u : Store) : Prop where
  listed : u.Made (v :: known) (made ++ [v])
  unequal : ∀ w, w ∈ made ∨ Present known t w → v.equals w = false

section

variable {known made : List Value} {t u : Store} (h : t.Made known made)

include h

theorem Present.of_made {v : Value} (present : Present known t v) : v.MadeIn made := by
  obtain ⟨u, mem | ⟨e, entry, mem⟩, inside⟩ := present
  · exact (h.given u mem).inside inside
  · exact (h.entries e entry u mem).inside inside

theorem Present.not_equal {v w : Value} (fresh : v.identity? = some t.nextIdentity)
    (present : Present known t w) : v.equals w = false := by
  cases identity : w.identity? with
  | none => exact Value.not_equals_of_identity fresh identity
  | some i =>
    have at_i := present.of_made h w i .here identity
    exact h.not_equal fresh (List.mem_of_getElem? at_i)

theorem New.of_fresh {v : Value} (entries : List Entry) (fresh : v.identity? = some t.nextIdentity)
    (parts : MadeIn made v.parts) (copies : ∀ e ∈ entries, MadeIn made e.values)
    (next : u.nextIdentity = t.nextIdentity + 1)
    (journal : u.journal = entries.reverse ++ t.journal) : New known made t v u := by
  obtain ⟨store, copy⟩ := (h.log copies).extend fresh parts next journal
  exact ⟨store.have_copies (madeIn_cons.mpr ⟨copy, store.given⟩), fun w existing =>
    existing.elim (h.not_equal fresh) fun present => present.not_equal h fresh⟩

theorem New.newClosure {target : Target} {scope : Option (Scope Value)} {signature : Signature}
    {bound carried : List Value} {f : Closure Value}
    (parts : MadeIn made (scope.elim [] Scope.values ++ bound ++ carried))
    (built : Run.newClosure target scope signature bound carried t = .ok f u) :
    New known made t (.closure f) u := by
  obtain ⟨rfl, rfl⟩ := Run.newClosure_eq_ok built
  exact .of_fresh h [] rfl parts (fun _ mem => nomatch mem) rfl rfl

theorem New.dispatch {eval : Evaluator} {rounds : Nat} {settings : Settings} {call : Call}
    (copies : MadeIn made call.values) (unsaturated : call.isSaturated = false) :
    ∃ f u, Machine.dispatch eval rounds settings call t = .ok (.ok (.closure f)) u ∧
      New known made t (.closure f) u := by
  have binds : Machine.dispatch eval rounds settings call t = _ :=
    (dispatch_of_unsaturated unsaturated).trans (bindSupplied_of_unsaturated unsaturated)
  refine ⟨_, _, binds, .of_fresh h ((Policy.loops settings).announce call ++
    [.event (.partialApplication call.closure.name call.supplied.length call.closure.arity)])
    rfl ?_ ?_ rfl ?_⟩
  · obtain ⟨-, scope, -, carried⟩ := Value.madeIn_closure.mp (call.madeIn_closure copies)
    exact madeIn_append.mpr ⟨madeIn_append.mpr ⟨scope, call.madeIn_supplied copies⟩, carried⟩
  · unfold Policy.loops
    cases settings.traceCalls <;> simp [Entry.values, copies]
  · simp [Store.log]

end

namespace Closure

theorem invokeMember_equals {a : Closure Value} {v : Value} (plain : ∀ x, v ≠ .suspension x) :
    a.invokeMember "equals" [v] = .ok (.boolean ((Value.closure a).equals v)) := by
  cases v with
  | suspension x => exact absurd rfl (plain x)
  | closure b =>
    rw [Value.equals]
    rfl
  | _ => rfl

/-- A host finds the two closures to be the same. -/
def SameToHost (a b : Closure Value) : Prop :=
  a.invokeMember "equals" [.closure b] = .ok (.boolean true)

theorem sameToHost_iff {a b : Closure Value} : a.SameToHost b ↔ a.identity = b.identity := by
  simp [SameToHost, invokeMember_equals, Value.equals]

theorem sameToHost_equivalence : Equivalence SameToHost where
  refl _ := sameToHost_iff.mpr rfl
  symm h := sameToHost_iff.mpr (sameToHost_iff.mp h).symm
  trans h h' := sameToHost_iff.mpr ((sameToHost_iff.mp h).trans (sameToHost_iff.mp h'))

end Closure

namespace Bodies

/-- Whatever is constructed, bound, applied, forced or executed by whoever begins with copies of
what was made: closures and suspensions, wherever they are, are equal exactly if they are copies of
the same that was made. What a constructor, an application to too few arguments or a binding of
other arguments comes to is new. A host finds a closure to be the same exactly if it is equal. -/
theorem equal_iff_copies {bodies : Bodies} {given known made : List Value} {s t : Store}
    (genuine : bodies.Genuine given) (begun : s.Made given made)
    (reached : Reached bodies given s known t) :
    (∃ made', made <+: made' ∧ t.Made known made' ∧
      (∀ v w i j, Present known t v → Present known t w → v.identity? = some i →
        w.identity? = some j →
        (v.equals w = true ↔ ∃ k : Nat, made'[k]? = some v ∧ made'[k]? = some w)) ∧
      (∀ target scope signature bound carried f u,
        Copied known (scope.elim [] Scope.values ++ bound ++ carried) →
        Run.newClosure target scope signature bound carried t = .ok f u →
        New known made' t (.closure f) u) ∧
      (∀ target scope x u, Copied known scope.values →
        Run.newSuspension target scope t = .ok x u → New known made' t (.suspension x) u) ∧
      (∀ f bound g u, Copied known (.closure f :: bound) → Run.rebind f bound t = .ok g u →
        New known made' t (.closure g) u) ∧
      ∀ eval rounds settings call, Copied known call.values → call.isSaturated = false →
        ∃ f u, dispatch eval rounds settings call t = .ok (.ok (.closure f)) u ∧
          New known made' t (.closure f) u) ∧
    (∀ (a : Closure Value) v, (∀ x, v ≠ .suspension x) →
      a.invokeMember "equals" [v] = .ok (.boolean ((Value.closure a).equals v))) ∧
    Equivalence Closure.SameToHost := by
  refine ⟨?_, fun _ _ plain => Closure.invokeMember_equals plain, Closure.sameToHost_equivalence⟩
  obtain ⟨made', more, store, at_hand⟩ := reached.made genuine begun
  replace store := store.have_copies at_hand
  refine ⟨made', more, store, fun v w i j present present' => ?_, ?_, ?_, ?_, ?_⟩
  · exact Value.equals_iff (present.of_made store) (present'.of_made store)
  · intro target scope signature bound carried f u copied
    exact .newClosure store (copied.madeIn at_hand)
  · intro target scope x u copied built
    cases built
    exact .of_fresh store [] rfl (copied.madeIn at_hand) (fun _ mem => nomatch mem) rfl rfl
  · intro f bound g u copied
    obtain ⟨source, bound⟩ := madeIn_cons.mp (copied.madeIn at_hand)
    obtain ⟨-, scope, -, carried⟩ := Value.madeIn_closure.mp source
    exact .newClosure store (madeIn_append.mpr ⟨madeIn_append.mpr ⟨scope, bound⟩, carried⟩)
  · intro eval rounds settings call copied
    exact New.dispatch store (copied.madeIn at_hand)

def idle : Bodies := fun _ _ => .done (.ok .unit)

theorem idle_genuine : idle.Genuine [] := fun _ _ => .unit _

def unary (identity : Nat) : Closure Value :=
  ⟨identity, ⟨"unary", 0, none⟩, none, ⟨.loop, .withheld, [.plain 0 "x"], by decide⟩, [], []⟩

theorem unary_reached : ∃ t,
    Reached idle [] {} [.closure (unary 2), .closure (unary 1), .closure (unary 0), .unit] t := by
  have begun : Reached idle [] {} [.unit] {} := .copy .begin (.unit [])
  have constructed : Reached idle [] {} [.closure (unary 0), .unit] _ :=
    begun.ask (.newClosure (unary 0).target none (unary 0).signature [] []) 0 0
      (.of_subset (List.nil_subset _))
  have applied : Reached idle [] {} [.closure (unary 1), .closure (unary 0), .unit] _ :=
    constructed.ask (.apply (.currying {}) ⟨unary 0, none, .unit, []⟩) 1 0
      (.of_subset (List.Subset.refl _))
  exact ⟨_, applied.ask (.apply (.currying {}) ⟨unary 0, none, .unit, []⟩) 1 0
    (.of_subset (List.subset_cons_self _ _))⟩

theorem unary_distinguished : idle.Genuine [] ∧ Store.Made [] {} [] ∧ ∃ t,
    Reached idle [] {} [.closure (unary 2), .closure (unary 1), .closure (unary 0), .unit] t ∧
    (Value.closure (unary 2)).equals (.closure (unary 1)) = false ∧
    (unary 2).invokeMember "equals" [.closure (unary 1)] = .ok (.boolean false) := by
  obtain ⟨t, reached⟩ := unary_reached
  obtain ⟨⟨made, -, -, equal_iff, -⟩, foreign, -⟩ :=
    equal_iff_copies idle_genuine Store.Made.nothing reached
  have different : (Value.closure (unary 2)).equals (.closure (unary 1)) = false := by
    refine Bool.eq_false_iff.mpr fun equal => ?_
    obtain ⟨k, two, one⟩ := (equal_iff _ _ _ _ ⟨_, .inl (by simp), .here⟩
      ⟨_, .inl (by simp), .here⟩ rfl rfl).mp equal
    cases two.symm.trans one
  have plain : ∀ x, Value.closure (unary 1) ≠ .suspension x := fun _ e => nomatch e
  exact ⟨idle_genuine, Store.Made.nothing, t, reached, different, different ▸ foreign _ _ plain⟩

end Bodies

end Callable
