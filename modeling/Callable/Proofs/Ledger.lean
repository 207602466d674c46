import Callable.Proofs.Growth
import Callable.Proofs.Stages

/-! What runs enter in the journal. A ledger says which applications it admits and which entries
are in order, each judged together with the journal before it and the way in which a run that it
has become part of comes out. If the entries of a single application are in order, and its
requests and its surplus are admitted in turn, then so are the entries of whole runs:
`Ledger.keeps_evaluate`. -/

namespace Callable

def Outcome.bare {α : Type} : Outcome α → Outcome Unit
  | .ok _ t => .ok () t
  | .error h t => .error h t

namespace Run

variable {α : Type} {x : Run α} {s : Store} {o : Outcome α}

def bare (x : Run α) (s : Store) : Outcome Unit := Outcome.bare (x s)

theorem bare_of_eq (h : x s = o) : bare x s = o.bare := congrArg Outcome.bare h

theorem bare_journal (x : Run α) (s : Store) : (bare x s).store.journal = journal x s := by
  unfold bare journal
  cases x s <;> rfl

end Run

/-- What is said of an entry, of the journal before it and of the outcome of a run. -/
abbrev Judgement := Entry → List Entry → Outcome Unit → Prop

/-- A run with that outcome has added to the journal `base`, and all in order. -/
structure Grown (ok : Judgement) (base : List Entry) (o : Outcome Unit) : Prop where
  suffix : base <:+ o.store.journal
  new : ∀ {e before}, e :: before <:+ o.store.journal → base <:+ before → ok e before o

def Judgement.Lasts (ok : Judgement) : Prop := ∀ {e before t o}, ok e before (.ok () t) →
  t.journal <:+ o.store.journal → ok e before o

namespace Grown

variable {ok : Judgement} {a : List Entry} {e : Entry} {t : Store} {o : Outcome Unit}

theorem same (h : o.store.journal = a) : Grown ok a o where
  suffix := h ▸ List.suffix_refl _
  new entry after := by
    have shorter := entry.length_le
    have longer := after.length_le
    rw [h, List.length_cons] at shorter
    omega

theorem trans (lasts : ok.Lasts) (h : Grown ok a (.ok () t)) (h' : Grown ok t.journal o) :
    Grown ok a o where
  suffix := h.suffix.trans h'.suffix
  new {e before} entry after := by
    -- an entry of the first part is judged by how that part comes out
    rcases List.suffix_or_suffix_of_suffix h'.suffix entry with late | early
    · rcases List.suffix_cons_iff.mp late with at_end | late
      · exact lasts (h.new (at_end ▸ List.suffix_refl _) after) h'.suffix
      · exact h'.new entry late
    · exact lasts (h.new early after) h'.suffix

theorem cons (here : ok e a o) (h : Grown ok (e :: a) o) : Grown ok a o where
  suffix := (List.suffix_cons e a).trans h.suffix
  new {e' before} entry after := by
    rcases List.suffix_or_suffix_of_suffix h.suffix entry with late | early
    · rcases List.suffix_cons_iff.mp late with same | late
      · cases same
        exact here
      · exact h.new entry late
    · rcases List.suffix_cons_iff.mp early with same | early
      · cases same
        exact here
      · have shorter := early.length_le
        have longer := after.length_le
        rw [List.length_cons] at shorter
        omega

end Grown

open Machine in
/-- What is in order in the journals of a machine with these bodies and settings. -/
structure Ledger (bodies : Bodies) (settings : Settings) where
  ok : Judgement
  lasts : ok.Lasts
  event : ∀ e before o, ok (.event e) before o
  note : ∀ text before o, ok (.note text) before o
  created : ∀ r before o, ok (.created r) before o
  suspension : ∀ t state before o, ok (.invoked (.suspension t) (.ofSuspension t state)) before o
  direct : ∀ target payload before o, ok (.invoked (.direct target) payload) before o
  admits : Call → Prop
  onward : ∀ {call}, admits call → ∀ f arguments, admits ⟨f, none, call.state, arguments⟩
  dispatched : ∀ {call}, admits call → ∀ before o, ok (.dispatched call) before o
  invoked : ∀ {call : Call} {fuel arguments caller s t u}, admits call → call.isSaturated = true →
    forceArguments (evaluate bodies fuel) fuel settings call.state
      call.closure.signature.parameters call.positional
      (s.log ((Policy.loops settings).announce call)) = .ok (.ok arguments) t →
    presentedCaller call t = .ok caller u → .dispatched call :: s.journal <:+ u.journal →
    ok (.invoked (.application call) (.ofClosure call.closure caller call.state arguments))
      u.journal (Run.bare (evaluate bodies (fuel + 1) (.dispatch settings call)) s)

namespace Ledger

variable {bodies : Bodies} {settings : Settings} (L : Ledger bodies settings)

theorem trans {a : List Entry} {t : Store} {o : Outcome Unit} (h : Grown L.ok a (.ok () t))
    (h' : Grown L.ok t.journal o) : Grown L.ok a o :=
  Grown.trans L.lasts h h'

theorem ok_of_idle {e : Entry} (idle : e.Idle) (before : List Entry) (o : Outcome Unit) :
    L.ok e before o := by
  cases e with
  | dispatched | invoked => exact idle.elim
  | event => exact L.event _ _ _
  | note => exact L.note _ _ _
  | created => exact L.created _ _ _

theorem grown_of_idle {since base : List Entry} {o : Outcome Unit}
    (idle : ∀ e ∈ since, e.Idle) (journal : o.store.journal = since ++ base) :
    Grown L.ok base o where
  suffix := journal ▸ List.suffix_append since base
  new {e before} entry after := by
    obtain ⟨newer, whole⟩ := entry
    obtain ⟨older, rfl⟩ := after
    have same : newer ++ e :: older = since := by
      rw [journal, ← List.cons_append, ← List.append_assoc] at whole
      exact List.append_cancel_right whole
    exact L.ok_of_idle (idle e (same ▸ List.mem_append_cons_self)) _ _

def Adds {α : Type} (x : Run α) (s : Store) : Prop := Grown L.ok s.journal (Run.bare x s)

def Opens (state : Value) : Prop := ∀ f arguments, L.admits ⟨f, none, state, arguments⟩

/-- An evaluator whose runs add what is in order. Of an invocation, the entry itself is for the
application to answer for. -/
structure Keeps (eval : Evaluator) : Prop where
  dispatch : ∀ {call}, L.admits call → ∀ s, L.Adds (eval (.dispatch settings call)) s
  invoke : ∀ callee payload s, eval (.invoke callee payload) s = .error .exhausted s ∨
    Grown L.ok (.invoked callee payload :: s.journal)
      (Run.bare (eval (.invoke callee payload)) s)

namespace Adds

variable {L} {α β : Type} {x : Run α} {s : Store}

theorem of_same (h : Run.journal x s = s.journal) : L.Adds x s :=
  .same ((Run.bare_journal x s).trans h)

theorem pure (a : α) (s : Store) : L.Adds (pure a) s := of_same rfl

theorem of_idles (idles : x.Idles) (s : Store) : L.Adds x s := by
  obtain ⟨since, journal, idle⟩ := idles s
  exact L.grown_of_idle idle ((Run.bare_journal x s).trans journal)

theorem emit (e : Event) (s : Store) : L.Adds (Run.emit e) s :=
  of_idles (.record (e := .event e) trivial) s

theorem constructed {r : Request} (constructs : r.Constructs) {eval : Evaluator} {rounds : Nat}
    (s : Store) : L.Adds (Machine.answer eval rounds r) s :=
  of_idles (.answer constructs) s

theorem trans_bind {base : List Entry} {f : α → Run β}
    (hx : Grown L.ok base (Run.bare x s))
    (hf : ∀ a t, x s = .ok a t → L.Adds (f a) t) :
    Grown L.ok base (Run.bare (x >>= f) s) := by
  cases e : x s with
  | error h t =>
    rw [Run.bare_of_eq e] at hx
    rwa [Run.bare_of_eq (Run.bind_of_error e)]
  | ok a t =>
    rw [Run.bare_of_eq e] at hx
    rw [Run.bare_of_eq (Run.bind_of_ok e)]
    exact L.trans hx (hf a t e)

theorem bind {f : α → Run β} (hx : L.Adds x s) (hf : ∀ a t, x s = .ok a t → L.Adds (f a) t) :
    L.Adds (x >>= f) s :=
  trans_bind hx hf

theorem announced (call : Call) (s : Store) : Grown L.ok (.dispatched call :: s.journal)
    (.ok () (s.log ((Policy.loops settings).announce call))) := by
  unfold Policy.loops
  cases settings.traceCalls with
  | true => exact .cons (L.event _ _ _) (.same rfl)
  | false => exact .same rfl

end Adds

namespace Keeps

open Machine

variable {L} {eval : Evaluator} {rounds : Nat} (keeps : L.Keeps eval) {state : Value}

include keeps

theorem loop (opens : L.Opens state) (performed : UInt64) (request : TailCall) (s : Store) :
    L.Adds (callLoop eval settings state rounds performed request) s := by
  induction rounds generalizing performed request s with
  | zero => exact .of_same rfl
  | succ rounds ih =>
    cases exceeded : settings.exceeded? (performed + 1) with
    | some limit =>
      rw [callLoop_of_exceeded exceeded]
      exact .pure _ s
    | none =>
      rw [callLoop_of_within exceeded]
      refine .bind (keeps.dispatch (opens _ _) s) fun reply t _ => ?_
      rcases Settled.or_tailCall reply with settled | ⟨next, rfl⟩
      · rw [pursue_of_settled settled]
        exact .pure _ t
      · exact ih _ next t

theorem settle (opens : L.Opens state) (reply : Reply) (s : Store) :
    L.Adds (settle eval rounds settings state reply) s := by
  rcases Settled.or_tailCall reply with settled | ⟨request, rfl⟩
  · rw [settle_of_settled settled]
    exact .pure _ s
  · rw [settle_tailCall]
    exact .bind (.emit _ s) fun _ t _ => keeps.loop opens 0 request t

theorem apply {call : Call} (admitted : L.admits call) (s : Store) :
    L.Adds (apply eval rounds settings call) s :=
  .bind (keeps.dispatch admitted s) fun _ t _ => keeps.settle (L.onward admitted) _ t

theorem suspension (t : Suspension Value) (state : Value) (s : Store) :
    L.Adds (resume eval t state) s := by
  rcases keeps.invoke (.suspension t) (.ofSuspension t state) s with exhausted | grown
  · exact .of_same (Run.journal_of_eq exhausted)
  · exact .cons (L.suspension _ _ _ _) grown

theorem force (opens : L.Opens state) (t : Suspension Value) (s : Store) :
    L.Adds (force eval rounds settings t state) s :=
  .bind (keeps.suspension t state s) fun _ u _ => keeps.settle opens _ u

theorem forceValue (opens : L.Opens state) (steps : Nat) (v : Value) (s : Store) :
    L.Adds (forceValue eval rounds settings state steps v) s := by
  induction steps generalizing v s with
  | zero => cases v <;> exact .of_same rfl
  | succ steps ih =>
    cases v with
    | suspension t =>
      refine .bind (keeps.force opens t s) fun reply u _ => ?_
      cases reply with
      | ok v => exact ih v u
      | error fault => exact .pure _ u
    | _ => exact .pure _ s

theorem forceArgument (opens : L.Opens state) (p : Parameter) (v : Value) (s : Store) :
    L.Adds (forceArgument eval rounds settings state p v) s := by
  unfold Machine.forceArgument
  cases p.isSuspended with
  | true => exact .pure _ s
  | false => exact keeps.forceValue opens rounds v s

theorem forceArguments (opens : L.Opens state) (ps : List Parameter) (vs : List Value)
    (s : Store) : L.Adds (forceArguments eval rounds settings state ps vs) s := by
  induction ps generalizing vs s with
  | nil => cases vs <;> exact .pure _ s
  | cons p ps ih =>
    cases vs with
    | nil => exact .pure _ s
    | cons v vs =>
      refine .bind (keeps.forceArgument opens p v s) fun first t _ => ?_
      cases first with
      | error fault => exact .pure _ t
      | ok v =>
        refine .bind (ih vs t) fun rest u _ => ?_
        cases rest <;> exact .pure _ u

theorem applySurplus {call : Call} (opens : L.Opens call.state) (reply : Reply) (s : Store) :
    L.Adds (applySurplus eval rounds settings call reply) s := by
  cases reply with
  | error fault => exact .pure _ s
  | ok v =>
    refine .bind (.emit _ s) fun _ t _ => ?_
    cases v with
    | closure next => exact keeps.apply (opens _ _) t
    | _ => exact .pure _ t

theorem finish {call : Call} (opens : L.Opens call.state) (reply : Reply) (s : Store) :
    L.Adds (finish eval rounds settings call reply) s := by
  unfold Machine.finish
  cases call.surplus.isEmpty with
  | true => exact .pure _ s
  | false => exact .bind (keeps.settle opens _ s) fun _ t _ => keeps.applySurplus opens _ t

theorem applyInFrame {call : Call} (admitted : L.admits call) (s : Store) :
    L.Adds (applyInFrame eval rounds settings call) s := by
  cases strategy : call.closure.signature.strategy with
  | loop =>
    rw [applyInFrame_of_loop strategy]
    exact keeps.apply admitted s
  | direct =>
    rw [applyInFrame_of_direct strategy]
    exact keeps.dispatch admitted s

theorem answer {r : Request} (undispatched : r.Undispatched) (s : Store) :
    L.Adds (answer eval rounds r) s := by
  cases r with
  | newClosure | newSuspension | newScope | newCaller | note =>
    exact .constructed (by trivial) s
  | apply | applyInFrame | force => exact undispatched.elim
  | resume t state => exact keeps.suspension t state s
  | invoke target payload =>
    rcases keeps.invoke (.direct target) payload s with exhausted | grown
    · exact .of_same (Run.journal_of_eq exhausted)
    · exact .cons (L.direct _ _ _ _) grown

theorem perform {α : Type} {p : Program α} {accepted : α → Prop}
    (within : p.Within Request.Undispatched accepted) (s : Store) :
    L.Adds (p.perform (Machine.answer eval rounds)) s := by
  induction p generalizing s with
  | done a => exact .pure a s
  | ask r next ih =>
    exact .bind (keeps.answer within.1 s) fun a t _ => ih a (within.2 a) t

end Keeps

section

open Machine

/-- The course of one application. Its body is invoked, with arguments that are forced and a
caller that is presented before; or it is not. -/
inductive Course (eval : Evaluator) (rounds : Nat) (call : Call) (s : Store) (o : Outcome Unit) :
    Prop where
  | short (grown : Grown L.ok (.dispatched call :: s.journal) o)
  | invoked {arguments caller t u} (saturated : call.isSaturated = true)
      (forced : forceArguments eval rounds settings call.state
        call.closure.signature.parameters call.positional
        (s.log ((Policy.loops settings).announce call)) = .ok (.ok arguments) t)
      (presented : presentedCaller call t = .ok caller u)
      (before : Grown L.ok (.dispatched call :: s.journal) (.ok () u))
      (after : Grown L.ok (.invoked (.application call)
        (.ofClosure call.closure caller call.state arguments) :: u.journal) o)

variable {L} {eval : Evaluator} {rounds : Nat}

theorem course (keeps : L.Keeps eval) {call : Call} (opens : L.Opens call.state) (s : Store) :
    L.Course eval rounds call s (Run.bare (dispatch eval rounds settings call) s) := by
  have start := Adds.announced (L := L) call s
  cases saturated : call.isSaturated with
  | false =>
    rw [Run.bare_of_eq (dispatch_of_unsaturated saturated)]
    exact .short (L.trans start (Adds.of_idles (.bindSupplied call) _))
  | true =>
    have forcing : Grown L.ok (.dispatched call :: s.journal)
        (Run.bare (forceArguments eval rounds settings call.state
          call.closure.signature.parameters call.positional)
          (s.log ((Policy.loops settings).announce call))) :=
      L.trans start (keeps.forceArguments opens _ _ _)
    cases e : forceArguments eval rounds settings call.state call.closure.signature.parameters
        call.positional (s.log ((Policy.loops settings).announce call)) with
    | error h t =>
      have body : bodyReply eval rounds settings call
          (s.log ((Policy.loops settings).announce call)) = .error h t := forceOnward_of_halt e
      rw [Run.bare_of_eq ((dispatch_of_saturated saturated).trans (Run.bind_of_error body))]
      rw [Run.bare_of_eq e] at forcing
      exact .short forcing
    | ok forced t =>
      rw [Run.bare_of_eq e] at forcing
      cases forced with
      | error fault =>
        have body : bodyReply eval rounds settings call
            (s.log ((Policy.loops settings).announce call)) = .ok (.error fault) t :=
          forceOnward_of_fault e
        rw [Run.bare_of_eq ((dispatch_of_saturated saturated).trans (Run.bind_of_ok body))]
        exact .short (L.trans forcing (keeps.finish opens _ t))
      | ok arguments =>
        obtain ⟨caller, u, presented⟩ := presentedCaller_ok call t
        have presenting := Adds.of_idles (L := L) (.presentedCaller call) t
        unfold Adds at presenting
        rw [Run.bare_of_eq presented] at presenting
        have before := L.trans forcing presenting
        rw [Run.bare_of_eq (dispatch_of_presented saturated e presented)]
        rcases keeps.invoke (.application call) (.ofClosure call.closure caller call.state
          arguments) u with exhausted | grown
        · rw [Run.bind_of_error exhausted]
          exact .short (L.trans before (.same rfl))
        · exact .invoked saturated e presented before
            (Adds.trans_bind grown fun reply w _ => keeps.finish opens reply w)

theorem Course.grown {call : Call} {s : Store} {o : Outcome Unit}
    (course : L.Course eval rounds call s o) : .dispatched call :: s.journal <:+
      o.store.journal := by
  cases course with
  | short grown => exact grown.suffix
  | invoked saturated forced presented before after =>
    exact before.suffix.trans ((List.suffix_cons _ _).trans after.suffix)

theorem Course.bind {call : Call} {s : Store} {x : Run Reply} {f : Reply → Run Reply}
    (course : L.Course eval rounds call s (Run.bare x s))
    (onward : ∀ reply t, x s = .ok reply t → L.Adds (f reply) t) :
    L.Course eval rounds call s (Run.bare (x >>= f) s) := by
  cases course with
  | short grown => exact .short (Adds.trans_bind grown onward)
  | invoked saturated forced presented before after =>
    exact .invoked saturated forced presented before (Adds.trans_bind after onward)

theorem Course.adds {fuel : Nat} {call : Call} {s : Store} (admitted : L.admits call)
    (course : L.Course (evaluate bodies fuel) fuel call s
      (Run.bare (evaluate bodies (fuel + 1) (.dispatch settings call)) s)) :
    L.Adds (evaluate bodies (fuel + 1) (.dispatch settings call)) s := by
  refine .cons (L.dispatched admitted _ _) ?_
  cases course with
  | short grown => exact grown
  | invoked saturated forced presented before after =>
    exact L.trans before (.cons (L.invoked admitted saturated forced presented before.suffix) after)

/-- Whatever the fuel, a machine adds entries that are in order. -/
theorem keeps_evaluate (L : Ledger bodies settings) (undispatched : bodies.Undispatched)
    (fuel : Nat) : L.Keeps (evaluate bodies fuel) := by
  induction fuel with
  | zero => exact ⟨fun _ s => .of_same rfl, fun _ _ s => .inl rfl⟩
  | succ fuel ih =>
    refine ⟨fun admitted s => ?_, fun callee payload s => .inr ?_⟩
    · exact (course ih (L.onward admitted) s).adds admitted
    · exact ih.perform (undispatched _ _) (s.log [.invoked callee payload])

def lenient (bodies : Bodies) (settings : Settings) : Ledger bodies settings where
  ok _ _ _ := True
  lasts _ _ := trivial
  event _ _ _ := trivial
  note _ _ _ := trivial
  created _ _ _ := trivial
  suspension _ _ _ _ := trivial
  direct _ _ _ _ := trivial
  admits _ := True
  onward _ _ _ := trivial
  dispatched _ _ _ := trivial
  invoked _ _ _ _ _ := trivial

end

end Ledger

theorem Machine.dispatch_announced {bodies : Bodies} (undispatched : bodies.Undispatched)
    (settings : Settings) (fuel : Nat) (call : Call) (s : Store) :
    .dispatched call :: s.journal <:+
      Run.journal (Machine.evaluate bodies (fuel + 1) (.dispatch settings call)) s :=
  have keeps := (Ledger.lenient bodies settings).keeps_evaluate undispatched fuel
  have course : (Ledger.lenient bodies settings).Course (Machine.evaluate bodies fuel) fuel call s
      (Run.bare (Machine.evaluate bodies (fuel + 1) (.dispatch settings call)) s) :=
    Ledger.course keeps (fun _ _ => trivial) s
  Run.bare_journal (Machine.evaluate bodies (fuel + 1) (.dispatch settings call)) s ▸ course.grown

end Callable
