import Callable.Foreign
import Callable.Proofs.Settled

/-! Where tail calls may surface. Whatever the bodies do, an application from outside any frame,
a forced suspension and an execution by a host come to a settled reply, because each ends in a
call loop. Only an application from inside a body hands a tail call back, and exactly where its
own body asked for it last of all. -/

namespace Callable

theorem Call.surplus_eq_nil {c : Call} :
    c.surplus = [] ↔ c.closure.carried = [] ∧ c.supplied.length ≤ c.closure.arity := by
  simp [Call.surplus, List.drop_eq_nil_iff]

namespace Machine

section

variable {eval : Evaluator} {rounds : Nat} {settings : Settings} {call : Call}
  {request : TailCall} {s t : Store}

def bodyTask (call : Call) (caller : Option Caller) (arguments : List Value) : Task :=
  .invoke (.application call) (.ofClosure call.closure caller call.state arguments)

theorem runBody_eq_tailCall :
    runBody eval rounds settings call s = .ok (.error (.tailCall request)) t ↔
      call.surplus = [] ∧ ∃ arguments caller s₁ s₂,
        forceArguments eval rounds settings call.state call.closure.signature.parameters
          call.positional s = .ok (.ok arguments) s₁ ∧
        presentedCaller call s₁ = .ok caller s₂ ∧
        eval (bodyTask call caller arguments) s₂ = .ok (.error (.tailCall request)) t := by
  constructor
  · intro h
    obtain ⟨forced, s₁, hforced, h⟩ := Run.bind_eq_ok.mp h
    cases forced with
    | error fault =>
      cases h
      exact absurd (forceArguments_settled hforced) (Settled.not_tailCall request)
    | ok arguments =>
      obtain ⟨caller, s₂, hcaller, h⟩ := Run.bind_eq_ok.mp h
      obtain ⟨reply, s₃, hreply, h⟩ := Run.bind_eq_ok.mp h
      by_cases none : call.surplus = []
      · simp only [none, List.isEmpty_nil, if_true] at h
        cases h
        exact ⟨none, arguments, caller, s₁, s₂, hforced, hcaller, hreply⟩
      · rw [if_neg (by simpa using none)] at h
        obtain ⟨settled, s₄, hsettled, h⟩ := Run.bind_eq_ok.mp h
        exact absurd (applySurplus_settled (settle_settled hsettled) h)
          (Settled.not_tailCall request)
  · rintro ⟨none, arguments, caller, s₁, s₂, hforced, hcaller, hreply⟩
    refine Run.bind_eq_ok.mpr ⟨.ok arguments, s₁, hforced, ?_⟩
    refine Run.bind_eq_ok.mpr ⟨caller, s₂, hcaller, ?_⟩
    refine Run.bind_eq_ok.mpr ⟨_, t, hreply, ?_⟩
    simp [none]

theorem dispatch_eq_tailCall :
    dispatch eval rounds settings call s = .ok (.error (.tailCall request)) t ↔
      call.isSaturated = true ∧ ∃ s₁, announce settings call s = .ok () s₁ ∧
        runBody eval rounds settings call s₁ = .ok (.error (.tailCall request)) t := by
  constructor
  · intro h
    obtain ⟨_, s₁, announced, h⟩ := Run.bind_eq_ok.mp h
    by_cases saturated : call.isSaturated
    · rw [if_pos saturated] at h
      exact ⟨saturated, s₁, announced, h⟩
    · rw [if_neg saturated] at h
      exact absurd (bindSupplied_settled h) (Settled.not_tailCall request)
  · rintro ⟨saturated, s₁, announced, h⟩
    refine Run.bind_eq_ok.mpr ⟨(), s₁, announced, ?_⟩
    rwa [if_pos saturated]

theorem applyInFrame_eq_apply (settled : ∀ request t,
      eval (.dispatch settings call) s ≠ .ok (.error (.tailCall request)) t) :
    applyInFrame eval rounds settings call s = apply eval rounds settings call s := by
  cases strategy : call.closure.signature.strategy with
  | loop => rw [applyInFrame_of_loop strategy]
  | direct =>
    rw [applyInFrame_of_direct strategy]
    cases h : eval (.dispatch settings call) s with
    | error e t => exact (Run.bind_of_error h).symm
    | ok reply t =>
      refine ((Run.bind_of_ok h).trans ?_).symm
      rw [settle_of_settled fun request e => settled request t (e ▸ h)]
      rfl

end

/-- What it takes for an application from inside a body to hand a tail call back. The request
is that of the applied closure's own body, invoked with the payload of this application. -/
structure HandsBack (bodies : Bodies) (settings : Settings) (call : Call) (request : TailCall)
    (s t : Store) : Prop where
  direct : call.closure.signature.strategy = .direct
  saturated : call.closure.signature.isSaturatedBy (call.closure.bound ++ call.arguments).length
  carries_nothing : call.closure.carried = []
  no_excess : (call.closure.bound ++ call.arguments).length ≤ call.closure.signature.arity
  asks : ∃ arguments caller s₁ s₂ s₃,
    announce settings call s = .ok () s₁ ∧
    Ends bodies (forceArguments · · settings call.state call.closure.signature.parameters
      call.positional) s₁ (.ok (.ok arguments) s₂) ∧
    presentedCaller call s₂ = .ok caller s₃ ∧
    Ends bodies (fun eval _ => eval (bodyTask call caller arguments)) s₃
      (.ok (.error (.tailCall request)) t)

theorem handsBack_of_dispatch {bodies : Bodies} {settings : Settings} {call : Call}
    {request : TailCall} {s t : Store} {fuel : Nat}
    (direct : call.closure.signature.strategy = .direct)
    (h : evaluate bodies fuel (.dispatch settings call) s =
      .ok (.error (.tailCall request)) t) :
    HandsBack bodies settings call request s t := by
  cases fuel with
  | zero => cases h
  | succ fuel =>
    obtain ⟨saturated, s₁, announced, h⟩ := dispatch_eq_tailCall.mp h
    obtain ⟨none, arguments, caller, s₂, s₃, hforced, hcaller, hreply⟩ :=
      runBody_eq_tailCall.mp h
    obtain ⟨carries_nothing, no_excess⟩ := Call.surplus_eq_nil.mp none
    exact {
      direct, saturated, carries_nothing, no_excess
      asks := ⟨arguments, caller, s₁, s₂, s₃, announced,
        .of_fuel (fun le => forceArguments_le (evaluate_le bodies le) le _ _ _ _) hforced
          (by simp), hcaller,
        .of_fuel (fun le => evaluate_le bodies le _) hreply (by simp)⟩ }

theorem HandsBack.dispatch {bodies : Bodies} {settings : Settings} {call : Call}
    {request : TailCall} {s t : Store} (h : HandsBack bodies settings call request s t) :
    Ends bodies (fun eval _ => eval (.dispatch settings call)) s
      (.ok (.error (.tailCall request)) t) := by
  obtain ⟨arguments, caller, s₁, s₂, s₃, announced, ⟨m, hforced⟩, hcaller, ⟨n, hreply⟩⟩ := h.asks
  refine .step ⟨max m n, fun fuel enough => dispatch_eq_tailCall.mpr
    ⟨h.saturated, s₁, announced, runBody_eq_tailCall.mpr ⟨?_, arguments, caller, s₂, s₃,
      hforced fuel (by omega), hcaller, hreply fuel (by omega)⟩⟩⟩
  exact Call.surplus_eq_nil.mpr ⟨h.carries_nothing, h.no_excess⟩

/-- Tail calls never escape. An application, a forced suspension and an execution by a host
come to no tail call. An application from inside a body hands one back exactly as `HandsBack`
says, and otherwise it does whatever an application from outside does. -/
theorem tailCalls_stay_inside (bodies : Bodies) (settings : Settings) :
    (∀ call s reply t, Ends bodies (apply · · settings call) s (.ok reply t) →
      ∀ request, reply ≠ .error (.tailCall request)) ∧
    (∀ x state s reply t, Ends bodies (force · · settings x state) s (.ok reply t) →
      ∀ request, reply ≠ .error (.tailCall request)) ∧
    (∀ (f : Closure Value) state arguments s reply t,
      Ends bodies (f.execute · · ⟨.currying settings, state⟩ arguments) s (.ok reply t) →
      ∀ request, reply ≠ .error (.callee (.tailCall request))) ∧
    (∀ call s request t,
      Ends bodies (applyInFrame · · settings call) s (.ok (.error (.tailCall request)) t) ↔
        HandsBack bodies settings call request s t) ∧
    (∀ call s, (∀ request t, ¬ HandsBack bodies settings call request s t) →
      ∀ fuel, applyInFrame (evaluate bodies fuel) fuel settings call s =
        apply (evaluate bodies fuel) fuel settings call s) := by
  refine ⟨?_, ?_, ?_, ?_, ?_⟩
  · rintro call s reply t ⟨enough, h⟩
    exact apply_settled (h enough (Nat.le_refl _))
  · rintro x state s reply t ⟨enough, h⟩
    exact force_settled (h enough (Nat.le_refl _))
  · rintro f state arguments s reply t ⟨enough, h⟩ request rfl
    obtain ⟨_, s₁, -, h⟩ := Run.bind_eq_ok.mp (h enough (Nat.le_refl _))
    obtain ⟨answer, s₂, happly, h⟩ := Run.bind_eq_ok.mp h
    cases answer with
    | ok v => cases h
    | error fault =>
      cases h
      exact apply_settled happly request rfl
  · intro call s request t
    constructor
    · rintro ⟨enough, h⟩
      have h : applyInFrame (evaluate bodies enough) enough settings call s = _ :=
        h enough (Nat.le_refl _)
      cases strategy : call.closure.signature.strategy with
      | loop =>
        rw [applyInFrame_of_loop strategy] at h
        exact absurd rfl (apply_settled h request)
      | direct =>
        rw [applyInFrame_of_direct strategy] at h
        exact handsBack_of_dispatch strategy h
    · intro h
      obtain ⟨enough, hd⟩ := h.dispatch
      refine ⟨enough, fun fuel more => ?_⟩
      exact (congrFun (applyInFrame_of_direct h.direct) s).trans (hd fuel more)
  · intro call s never fuel
    cases strategy : call.closure.signature.strategy with
    | loop => rw [applyInFrame_of_loop strategy]
    | direct =>
      exact applyInFrame_eq_apply fun request t h =>
        never request t (handsBack_of_dispatch strategy h)

end Machine

end Callable
