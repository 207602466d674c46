import Callable.Proofs.AmbientState
import Callable.Proofs.Ledger

/-! Who is shown the caller. The caller of an application is shown to the body of the applied
closure, once, and to no other body of the run: every other body is shown a detached caller if its
signature has full access, and none otherwise. -/

namespace Callable

def Call.shownCaller (call : Call) : Option Caller :=
  match call.caller with
  | some caller => some caller
  | none => if call.closure.signature.passesCaller then some .detached else none

theorem Machine.presentedCaller_shown {call : Call} {caller : Option Caller} {s t : Store}
    (h : presentedCaller call s = .ok caller t) : caller = call.shownCaller := by
  unfold presentedCaller at h
  unfold Call.shownCaller
  cases given : call.caller with
  | some given' =>
    rw [given] at h
    cases h
    rfl
  | none =>
    rw [given] at h
    cases passes : call.closure.signature.passesCaller with
    | true =>
      simp only [passes, if_true] at h
      cases h
      rfl
    | false =>
      simp only [passes] at h
      cases h
      rfl

namespace Entry

/-- Nothing is applied with a caller, and bodies with full access are shown a detached one. What
bodies that are invoked without a dispatcher are shown is for the bodies to say that do so. -/
def Detached : Entry → Prop
  | .dispatched call => call.caller = none
  | .invoked (.application call) payload => call.caller = none ∧
    payload.caller = if call.closure.signature.passesCaller then some .detached else none
  | .invoked (.suspension _) payload => payload.caller = none
  | _ => True

end Entry

/-- The entries of a run, the newest first, that starts with this application. Only the body of
the applied closure is shown the caller of the application, and only once. -/
inductive Confined (call : Call) : List Entry → Prop where
  | cut : Confined call []
  | unshown {entries} (detached : ∀ e ∈ entries, e.Detached) :
      Confined call (entries ++ [.dispatched call])
  | shown {payload earlier later} (shows : payload.caller = call.shownCaller)
      (before : ∀ e ∈ earlier, e.Detached) (after : ∀ e ∈ later, e.Detached) :
      Confined call
        (later ++ .invoked (.application call) payload :: (earlier ++ [.dispatched call]))

theorem Grown.since {p : Entry → Prop} {base : List Entry} {o : Outcome Unit}
    (h : Grown (fun e _ _ => p e) base o) :
    ∃ since, o.store.journal = since ++ base ∧ ∀ e ∈ since, p e := by
  obtain ⟨since, journal⟩ := h.suffix
  refine ⟨since, journal.symm, fun e mem => ?_⟩
  obtain ⟨newer, older, rfl⟩ := List.append_of_mem mem
  have entry : e :: (older ++ base) <:+ o.store.journal :=
    ⟨newer, by rw [← journal, List.append_assoc, List.cons_append]⟩
  exact h.new entry (List.suffix_append older base)

namespace Confined

theorem sees {call c : Call} {payload : Payload} {entries : List Entry}
    (h : Confined call entries) (mem : .invoked (.application c) payload ∈ entries)
    (full : c.closure.signature.access = .full) : payload.caller ≠ none := by
  have passes : c.closure.signature.passesCaller = true := by
    simp [Signature.passesCaller, full]
  have detached (d : Entry.Detached (.invoked (.application c) payload)) :
      payload.caller ≠ none := by
    rw [d.2, passes]
    exact Option.some_ne_none _
  cases h with
  | cut => cases mem
  | unshown all =>
    rcases List.mem_append.mp mem with mem | mem
    · exact detached (all _ mem)
    · cases List.mem_singleton.mp mem
  | shown shows before after =>
    rcases List.mem_append.mp mem with mem | mem
    · exact detached (after _ mem)
    · rcases List.mem_cons.mp mem with same | mem
      · cases same
        rw [shows, Call.shownCaller]
        cases call.caller with
        | some caller => exact Option.some_ne_none _
        | none =>
          simp only [passes, if_true]
          exact Option.some_ne_none _
      · rcases List.mem_append.mp mem with mem | mem
        · exact detached (before _ mem)
        · cases List.mem_singleton.mp mem

end Confined

namespace Machine

def detached (bodies : Bodies) (settings : Settings) : Ledger bodies settings where
  ok e _ _ := e.Detached
  lasts here _ := here
  event _ _ _ := trivial
  note _ _ _ := trivial
  created _ _ _ := trivial
  suspension _ _ _ _ := rfl
  direct _ _ _ _ := trivial
  admits call := call.caller = none
  onward _ _ _ := rfl
  dispatched none_given _ _ := none_given
  invoked {call} _ _ _ _ _ _ none_given _ _ presented _ := by
    refine ⟨none_given, (presentedCaller_shown presented).trans ?_⟩
    rw [Call.shownCaller, none_given]

end Machine

theorem Confined.of_course {bodies : Bodies} {settings : Settings} {eval : Evaluator}
    {rounds : Nat} {call : Call} {s : Store} {o : Outcome Unit}
    (course : (Machine.detached bodies settings).Course eval rounds call s o) :
    ∃ since, o.store.journal = since ++ s.journal ∧ Confined call since := by
  cases course with
  | short grown =>
    obtain ⟨since, journal, detached⟩ := Grown.since grown
    exact ⟨since ++ [.dispatched call], by simp [journal], .unshown detached⟩
  | @invoked arguments caller t u saturated forced presented before after =>
    obtain ⟨earlier, at_body, detached⟩ := Grown.since before
    obtain ⟨later, journal, detached'⟩ := Grown.since after
    have at_body : u.journal = earlier ++ .dispatched call :: s.journal := at_body
    have shows := Machine.presentedCaller_shown presented
    refine ⟨later ++ .invoked (.application call)
      (.ofClosure call.closure caller call.state arguments) :: (earlier ++ [.dispatched call]), ?_,
      .shown shows detached detached'⟩
    simp [journal, at_body]

namespace Entrance

def call? : Entrance → Option Call
  | .apply call | .applyInFrame call => some call
  | .force .. => none

section

open Machine

variable {bodies : Bodies} {settings : Settings} {entrance : Entrance} {call : Call}
  (applies : entrance.call? = some call)

include applies

theorem run_eq (settings : Settings) (eval : Evaluator) (rounds : Nat) :
    ∃ goes_on : Reply → Run Reply, (∀ reply, goes_on reply = pure reply ∨
      goes_on reply = settle eval rounds settings call.state reply) ∧
    entrance.run settings eval rounds = eval (.dispatch settings call) >>= goes_on := by
  cases entrance with
  | apply => cases applies; exact ⟨_, fun reply => .inr rfl, rfl⟩
  | applyInFrame =>
    cases applies
    cases strategy : call.closure.signature.strategy with
    | loop => exact ⟨_, fun reply => .inr rfl, applyInFrame_of_loop strategy⟩
    | direct =>
      refine ⟨pure, fun reply => .inl rfl, (applyInFrame_of_direct strategy).trans ?_⟩
      exact (bind_pure _).symm
  | force => cases applies

theorem confined (undispatched : bodies.Undispatched) (fuel rounds : Nat) (s : Store) :
    ∃ since, Run.journal (entrance.run settings (evaluate bodies fuel) rounds) s =
      since ++ s.journal ∧ Confined call since := by
  obtain ⟨goes_on, onward, run⟩ := run_eq applies settings (evaluate bodies fuel) rounds
  rw [run]
  cases fuel with
  | zero => exact ⟨[], rfl, .cut⟩
  | succ fuel =>
    have keeps := (detached bodies settings).keeps_evaluate undispatched
    have opens : (detached bodies settings).Opens call.state := fun _ _ => rfl
    have adds (reply t) : (detached bodies settings).Adds (goes_on reply) t := by
      rcases onward reply with settled | settled
      · rw [settled]
        exact .pure reply t
      · rw [settled]
        exact (keeps (fuel + 1)).settle opens reply t
    have course : (detached bodies settings).Course (evaluate bodies fuel) fuel call s
        (Run.bare (evaluate bodies (fuel + 1) (.dispatch settings call)) s) :=
      Ledger.course (keeps fuel) opens s
    rw [← Run.bare_journal]
    exact Confined.of_course (course.bind fun reply t _ => adds reply t)

theorem run_of_unsaturated (unsaturated : call.isSaturated = false) (fuel rounds : Nat)
    (s : Store) : ∃ t, entrance.run settings (evaluate bodies (fuel + 1)) rounds s =
      .ok (.ok (.closure (call.rebound s.nextIdentity))) t := by
  obtain ⟨goes_on, onward, run⟩ := run_eq applies settings
    (evaluate bodies (fuel + 1)) rounds
  obtain ⟨t, answer⟩ : ∃ t, evaluate bodies (fuel + 1) (.dispatch settings call) s =
      .ok (.ok (.closure (call.rebound s.nextIdentity))) t :=
    ⟨_, (dispatch_of_unsaturated unsaturated).trans (bindSupplied_of_unsaturated unsaturated)⟩
  have settled : goes_on (.ok (.closure (call.rebound s.nextIdentity))) =
      pure (.ok (.closure (call.rebound s.nextIdentity))) := by
    rcases onward (.ok (.closure (call.rebound s.nextIdentity))) with same | settle
    · exact same
    · exact settle.trans (settle_of_settled (.ok _))
  rw [run, Run.bind_of_ok answer, settled]
  exact ⟨t, rfl⟩

end

end Entrance

namespace Bodies

open Machine

/-- The caller of an application reaches the body of the applied closure and no other body. -/
theorem caller_reaches_addressee {bodies : Bodies} (undispatched : bodies.Undispatched)
    (settings : Settings) {entrance : Entrance} {call : Call}
    (applies : entrance.call? = some call) (fuel rounds : Nat) (s : Store) :
    (∃ since, Run.journal (entrance.run settings (evaluate bodies fuel) rounds) s =
      since ++ s.journal ∧ Confined call since ∧
      ∀ c payload, .invoked (.application c) payload ∈ since →
        c.closure.signature.access = .full → payload.caller ≠ none) ∧
    (call.isSaturated = false → ∃ t,
      entrance.run settings (evaluate bodies (fuel + 1)) rounds s =
        .ok (.ok (.closure ⟨s.nextIdentity, call.closure.target, call.closure.scope,
          call.closure.signature, call.closure.bound ++ call.arguments,
          call.closure.carried⟩)) t) := by
  obtain ⟨since, journal, confined⟩ := Entrance.confined applies undispatched fuel rounds s
  refine ⟨⟨since, journal, confined, fun c payload => confined.sees⟩, fun unsaturated => ?_⟩
  exact Entrance.run_of_unsaturated applies unsaturated fuel rounds s

def introducing : Bodies
  | 0, _ => .ask (.newClosure ⟨"host", 1, none⟩ none (.parameterless .direct .full) [] [])
    fun host => .done (.error (.tailCall ⟨host, []⟩))
  | _, payload => .done (.ok (.boolean (payload.caller.any (·.name.isSome))))

theorem introducing_undispatched : Undispatched introducing := fun label _ =>
  match label with
  | 0 => ⟨trivial, fun _ => trivial⟩
  | _ + 1 => trivial

def introduction : Call :=
  ⟨⟨0, ⟨"guest", 0, none⟩, none, .parameterless .loop .withheld, [], []⟩,
    some ⟨none, some "door", none⟩, .unit, []⟩

theorem introduction_runs : ∃ t, Machine.apply (evaluate introducing 9) 9 {} introduction {} =
    .ok (.ok (.boolean false)) t :=
  ⟨_, rfl⟩

theorem introduction_confined : introducing.Undispatched ∧
    (Entrance.apply introduction).call? = some introduction ∧
    ∃ t since, Machine.apply (evaluate introducing 9) 9 {} introduction {} =
      .ok (.ok (.boolean false)) t ∧ t.journal = since ++ [] ∧ Confined introduction since := by
  obtain ⟨t, run⟩ := introduction_runs
  have applies : (Entrance.apply introduction).call? = some introduction := rfl
  obtain ⟨⟨since, journal, confined, -⟩, -⟩ :=
    caller_reaches_addressee introducing_undispatched {} applies 9 9 {}
  exact ⟨introducing_undispatched, applies, t, since, run,
    (Run.journal_of_eq run).symm.trans journal, confined⟩

end Bodies

end Callable
