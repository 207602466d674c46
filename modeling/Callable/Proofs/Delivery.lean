import Callable.Proofs.AmbientState
import Callable.Proofs.Currying
import Callable.Proofs.Ledger

/-! Where the arguments of an application go. A body is given those that are supplied for its
parameters, each in its place, and what is left over goes, in one piece, to the closure that the
body comes to. This is said of every invocation that an application makes in any run. -/

namespace Callable

/-- A payload of a body that is applied in that state: the scope is the closure's own, and the
parameters have what is supplied for them, up to the suspensions that are forced. -/
structure Call.Packs (state : Value) (call : Call) (payload : Payload) : Prop where
  saturated : ∀ p ∈ call.closure.signature.parameters.drop
    (call.closure.bound ++ call.arguments).length, p.hasDefault = true
  scope : payload.scope = call.closure.scope
  state_eq : payload.state = state
  length : payload.arguments.length =
    min (call.closure.bound ++ call.arguments).length call.closure.signature.parameters.length
  slot : ∀ {i : Nat} {p : Parameter} {v : Value}, call.closure.signature.parameters[i]? = some p →
    (call.closure.bound ++ call.arguments)[i]? = some v →
    p.mode = .suspend ∨ (∀ t, v ≠ .suspension t) → payload.arguments[i]? = some v

structure Spared (ps : List Parameter) (vs ws : List Value) : Prop where
  length : ws.length = vs.length
  slot : ∀ {i : Nat} {p : Parameter} {v : Value}, ps[i]? = some p → vs[i]? = some v →
    p.isSuspended = true ∨ (∀ t, v ≠ .suspension t) → ws[i]? = some v

namespace Spared

variable {ps : List Parameter} {vs ws : List Value} {p : Parameter} {v w : Value}

theorem refl (ps : List Parameter) (vs : List Value) : Spared ps vs vs :=
  ⟨rfl, fun _ supplied _ => supplied⟩

theorem cons (first : p.isSuspended = true ∨ (∀ t, v ≠ .suspension t) → w = v)
    (rest : Spared ps vs ws) : Spared (p :: ps) (v :: vs) (w :: ws) where
  length := congrArg (· + 1) rest.length
  slot {i q u} parameter supplied spared := by
    cases i with
    | zero =>
      cases parameter
      cases supplied
      exact congrArg some (first spared)
    | succ i => exact rest.slot parameter supplied spared

theorem packs {call : Call} (saturated : call.isSaturated = true)
    (spared : Spared call.closure.signature.parameters call.positional ws)
    (caller : Option Caller) :
    call.Packs call.state (.ofClosure call.closure caller call.state ws) where
  saturated := List.all_eq_true.mp saturated
  scope := rfl
  state_eq := rfl
  length := spared.length.trans ((List.length_take).trans (Nat.min_comm _ _))
  slot {i p v} parameter supplied kept := by
    have declared : i < call.closure.arity := (List.getElem?_eq_some_iff.mp parameter).1
    have positional : call.positional[i]? = some v :=
      (List.getElem?_take_of_lt declared).trans supplied
    exact spared.slot parameter positional (kept.imp_left beq_iff_eq.mpr)

end Spared

namespace Machine

section

variable {eval : Evaluator} {rounds : Nat} {settings : Settings} {state : Value} {s t : Store}

theorem forceArgument_spares {p : Parameter} {v w : Value}
    (h : forceArgument eval rounds settings state p v s = .ok (.ok w) t)
    (spared : p.isSuspended = true ∨ ∀ x, v ≠ .suspension x) : w = v := by
  unfold forceArgument at h
  rcases spared with suspended | plain
  · rw [if_pos suspended] at h
    cases h
    rfl
  · rw [forceValue_of_plain plain, ite_self] at h
    cases h
    rfl

theorem forceArguments_spares {ps : List Parameter} {vs ws : List Value}
    (h : forceArguments eval rounds settings state ps vs s = .ok (.ok ws) t) :
    Spared ps vs ws := by
  induction ps generalizing vs ws s t with
  | nil => cases vs <;> cases h <;> exact .refl _ _
  | cons p ps ih =>
    cases vs with
    | nil =>
      cases h
      exact .refl _ _
    | cons v vs =>
      obtain ⟨first, u, forced, h⟩ := Run.bind_eq_ok.mp h
      cases first with
      | error fault => cases h
      | ok w =>
        obtain ⟨rest, r, others, h⟩ := Run.bind_eq_ok.mp h
        cases rest with
        | error fault => cases h
        | ok ws' =>
          cases h
          exact .cons (forceArgument_spares forced) (ih others)

/-- The finished result of the body of an application. Where arguments are left over for it, any
tail call that the body asks for is performed; otherwise that is left to the loop around. -/
def finishedReply (eval : Evaluator) (rounds : Nat) (settings : Settings) (call : Call)
    (payload : Payload) : Run Reply := do
  let reply ← eval (.invoke (.application call) payload)
  if call.leftOver.isEmpty then return reply else settle eval rounds settings call.state reply

section

variable {call : Call} {arguments : List Value} {caller : Option Caller} {u : Store}
  (saturated : call.isSaturated = true)
  (forced : forceArguments eval rounds settings call.state call.closure.signature.parameters
    call.positional (s.log ((Policy.loops settings).announce call)) = .ok (.ok arguments) t)
  (presented : presentedCaller call t = .ok caller u)

include saturated forced presented

theorem dispatch_of_nothing_left (none_left : call.surplus = []) :
    dispatch eval rounds settings call s = finishedReply eval rounds settings call
      (.ofClosure call.closure caller call.state arguments) u := by
  rw [dispatch_of_presented saturated forced presented, finish_of_exact none_left]
  simp only [finishedReply, ← call.surplus_eq_leftOver, none_left, List.isEmpty_nil, if_true]

theorem dispatch_of_left (left : call.surplus ≠ []) :
    dispatch eval rounds settings call s = (finishedReply eval rounds settings call
      (.ofClosure call.closure caller call.state arguments) >>=
        applySurplus eval rounds settings call) u := by
  have filled : call.leftOver.isEmpty = false := List.isEmpty_eq_false_iff.mpr left
  rw [dispatch_of_presented saturated forced presented, finish_of_excess left]
  simp only [finishedReply, filled, Bool.false_eq_true, if_false, bind_assoc]

end

end

variable {bodies : Bodies} {settings : Settings} {call : Call}

/-- An application whose body is invoked at `ready`, as a part of a run with the outcome `o`, and
what it does with the finished result of the body: if arguments are left over, a closure is applied
to them at once; otherwise the application is over and applies nothing more. If the body does not
come to a result, neither does the run. -/
structure Delivers (bodies : Bodies) (settings : Settings) (call : Call) (payload : Payload)
    (fuel : Nat) (begun ready : Store) (o : Outcome Unit) : Prop where
  began : .dispatched call :: begun.journal <:+ ready.journal
  lasted : Run.journal (evaluate bodies (fuel + 1) (.dispatch settings call)) begun <:+
    o.store.journal
  halts : ∀ {h t}, finishedReply (evaluate bodies fuel) fuel settings call payload ready =
    .error h t → o = .error h t
  next : ∀ {f t}, finishedReply (evaluate bodies fuel) fuel settings call payload ready =
    .ok (.ok (.closure f)) t → call.leftOver ≠ [] →
    .dispatched ⟨f, none, call.state, call.leftOver⟩ ::
      .event (.surplus call.closure.target.name call.leftOver.length) :: t.journal <:+
        o.store.journal
  ended : ∀ {reply t}, finishedReply (evaluate bodies fuel) fuel settings call payload ready =
    .ok reply t → (call.leftOver = [] ∨ ∀ f, reply ≠ .ok (.closure f)) →
    ∃ reply' t' since, evaluate bodies (fuel + 1) (.dispatch settings call) begun = .ok reply' t' ∧
      t'.journal = since ++ t.journal ∧ ∀ call', .dispatched call' ∉ since

namespace Delivers

variable {payload : Payload} {fuel : Nat} {begun ready : Store}

theorem lasts {t : Store} {o : Outcome Unit}
    (h : Delivers bodies settings call payload fuel begun ready (.ok () t))
    (more : t.journal <:+ o.store.journal) :
    Delivers bodies settings call payload fuel begun ready o where
  began := h.began
  lasted := h.lasted.trans more
  halts halted := nomatch h.halts halted
  next finished left := (h.next finished left).trans more
  ended := h.ended

theorem surplus_dispatched (undispatched : bodies.Undispatched) (f : Closure Value) (u : Store) :
    .dispatched ⟨f, none, call.state, call.surplus⟩ ::
      .event (.surplus call.closure.name call.surplus.length) :: u.journal <:+
      Run.journal (applySurplus (evaluate bodies (fuel + 1)) (fuel + 1) settings call
        (.ok (.closure f))) u := by
  have keeps := (Ledger.lenient bodies settings).keeps_evaluate undispatched (fuel + 1)
  have announced := dispatch_announced undispatched settings fuel
    ⟨f, none, call.state, call.surplus⟩
    (u.log [.event (.surplus call.closure.name call.surplus.length)])
  rw [← Run.bare_journal] at announced ⊢
  exact (Ledger.Adds.trans_bind (L := .lenient bodies settings) ⟨announced, fun _ _ => trivial⟩
    fun reply w _ => keeps.settle (fun _ _ => trivial) reply w).suffix

variable {arguments : List Value} {caller : Option Caller} {s t u : Store}

theorem of_invoked (undispatched : bodies.Undispatched) (saturated : call.isSaturated = true)
    (forced : forceArguments (evaluate bodies fuel) fuel settings call.state
      call.closure.signature.parameters call.positional
      (s.log ((Policy.loops settings).announce call)) = .ok (.ok arguments) t)
    (presented : presentedCaller call t = .ok caller u)
    (began : .dispatched call :: s.journal <:+ u.journal) :
    Delivers bodies settings call (.ofClosure call.closure caller call.state arguments) fuel s u
      (Run.bare (evaluate bodies (fuel + 1) (.dispatch settings call)) s) where
  began := began
  lasted := Run.bare_journal _ s ▸ List.suffix_refl _
  halts {h w} halted := by
    have whole : evaluate bodies (fuel + 1) (.dispatch settings call) s = .error h w := by
      by_cases left : call.surplus = []
      · exact (dispatch_of_nothing_left saturated forced presented left).trans halted
      · exact (dispatch_of_left saturated forced presented left).trans (Run.bind_of_error halted)
    exact Run.bare_of_eq whole
  next {f w} finished left := by
    have whole : evaluate bodies (fuel + 1) (.dispatch settings call) s =
        applySurplus (evaluate bodies fuel) fuel settings call (.ok (.closure f)) w :=
      (dispatch_of_left saturated forced presented left).trans (Run.bind_of_ok finished)
    rw [Run.bare_journal, Run.journal_of_eq whole]
    -- without fuel there would be no finished result
    cases fuel with
    | zero => cases finished
    | succ fuel => exact surplus_dispatched undispatched f w
  ended {reply w} finished nothing := by
    by_cases left : call.surplus = []
    · have whole := (dispatch_of_nothing_left saturated forced presented left).trans finished
      exact ⟨reply, w, [], whole, rfl, fun _ => List.not_mem_nil⟩
    · have whole : evaluate bodies (fuel + 1) (.dispatch settings call) s =
          applySurplus (evaluate bodies fuel) fuel settings call reply w :=
        (dispatch_of_left saturated forced presented left).trans (Run.bind_of_ok finished)
      have no_closure := nothing.resolve_left left
      cases reply with
      | error fault => exact ⟨.error fault, w, [], whole, rfl, fun _ => List.not_mem_nil⟩
      | ok v =>
        let onward : Entry := .event (.surplus call.closure.name call.surplus.length)
        refine ⟨.error (.notAFunction v.typeName), w.log [onward], [onward], whole.trans ?_, rfl,
          by simp [onward]⟩
        cases v with
        | closure f => exact absurd rfl (no_closure f)
        | _ => rfl

end Delivers

def Delivered (bodies : Bodies) (settings : Settings) (state : Value) : Judgement
  | .invoked (.application call) payload, before, o => call.Packs state payload ∧
    ∃ fuel begun ready, ready.journal = before ∧
      Delivers bodies settings call payload fuel begun ready o
  | _, _, _ => True

def deliveries {bodies : Bodies} (undispatched : bodies.Undispatched) (settings : Settings)
    (state : Value) : Ledger bodies settings where
  ok := Delivered bodies settings state
  lasts {e before t o} here more := by
    match e with
    | .invoked (.application call) payload =>
      obtain ⟨packs, fuel, begun, ready, at_ready, delivers⟩ := here
      exact ⟨packs, fuel, begun, ready, at_ready, delivers.lasts more⟩
    | .invoked (.suspension _) _ | .invoked (.direct _) _ | .dispatched _ | .event _ | .note _
    | .created _ => trivial
  event _ _ _ := trivial
  note _ _ _ := trivial
  created _ _ _ := trivial
  suspension _ _ _ _ := trivial
  direct _ _ _ _ := trivial
  admits call := call.state = state
  onward same _ _ := same
  dispatched _ _ _ := trivial
  invoked {call fuel arguments caller s t u} same saturated forced presented began := by
    subst same
    exact ⟨(forceArguments_spares forced).packs saturated caller, fuel, s, u, rfl,
      .of_invoked undispatched saturated forced presented began⟩

end Machine

def Entrance.state : Entrance → Value
  | .apply call | .applyInFrame call => call.state
  | .force _ state => state

namespace Bodies

open Machine

/-- In every run, each body that is applied is given its scope, the state of the run and the
supplied arguments in their places; what is left over goes to the closure that it comes to. -/
theorem applications_deliver {bodies : Bodies} (undispatched : bodies.Undispatched)
    (settings : Settings) (entrance : Entrance) (fuel rounds : Nat) (s : Store) {call : Call}
    {payload : Payload} {before : List Entry}
    (entry : .invoked (.application call) payload :: before <:+
      Run.journal (entrance.run settings (evaluate bodies fuel) rounds) s)
    (new : s.journal <:+ before) :
    call.Packs entrance.state payload ∧ ∃ inner begun ready, ready.journal = before ∧
      Delivers bodies settings call payload inner begun ready
        (Run.bare (entrance.run settings (evaluate bodies fuel) rounds) s) := by
  have keeps := (deliveries undispatched settings entrance.state).keeps_evaluate undispatched fuel
  have adds : (deliveries undispatched settings entrance.state).Adds
      (entrance.run settings (evaluate bodies fuel) rounds) s := by
    cases entrance with
    | apply call => exact keeps.apply rfl s
    | applyInFrame call => exact keeps.applyInFrame rfl s
    | force x state => exact keeps.force (fun _ _ => rfl) x s
  exact adds.new (Run.bare_journal _ s ▸ entry) new

def collection : Call :=
  ⟨{ collector with bound := [.integer 1], carried := [.integer 2] }, none, .unit, [.integer 3]⟩

theorem collection_delivers : ∃ payload before,
    collecting.Undispatched ∧
    .invoked (.application collection) payload :: before <:+
      Run.journal ((Entrance.apply collection).run {} (evaluate collecting 9) 9) {} ∧
    [] <:+ before ∧ collection.Packs .unit payload ∧ payload.arguments = [.integer 1] ∧
    (∃ inner begun ready, ready.journal = before ∧ Delivers collecting {} collection payload inner
      begun ready (Run.bare ((Entrance.apply collection).run {} (evaluate collecting 9) 9) {})) ∧
    collection.leftOver = [.integer 2, .integer 3] ∧
    ∃ f earlier, .dispatched ⟨f, none, .unit, [.integer 2, .integer 3]⟩ :: earlier <:+
      Run.journal ((Entrance.apply collection).run {} (evaluate collecting 9) 9) {} := by
  have entry : .invoked (.application collection) ⟨none, none, .unit, [.integer 1]⟩ ::
      [.dispatched collection] <:+
      Run.journal ((Entrance.apply collection).run {} (evaluate collecting 9) 9) {} :=
    ⟨[_, _, _, _], rfl⟩
  have new : [] <:+ [Entry.dispatched collection] := List.nil_suffix
  obtain ⟨packs, delivers⟩ :=
    applications_deliver collecting_undispatched {} (.apply collection) 9 9 {} entry new
  exact ⟨_, _, collecting_undispatched, entry, new, packs, rfl, delivers, rfl, _, _, [_], rfl⟩

end Bodies

end Callable
