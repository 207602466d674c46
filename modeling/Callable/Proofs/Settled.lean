import Callable.Proofs.Ends

/-! Settled replies, those that are no tail call. The call loop is stated by what it does with
one reply, and from it follows that whatever has gone through a loop is settled. -/

namespace Callable

/-- A reply, or the outcome of a part of an application, that is no tail call. -/
def Settled {α : Type} (reply : Except Fault α) : Prop :=
  ∀ request, reply ≠ .error (.tailCall request)

namespace Settled

variable {α β : Type}

@[simp] theorem ok (a : α) : Settled (.ok a) := fun _ h => nomatch h

@[simp] theorem notAFunction (type : String) :
    Settled (α := α) (.error (.notAFunction type)) := fun _ h => nomatch h

@[simp] theorem loopLimit (limit : UInt64) :
    Settled (α := α) (.error (.loopLimit limit)) := fun _ h => nomatch h

@[simp] theorem not_tailCall (request : TailCall) :
    ¬ Settled (α := α) (.error (.tailCall request)) := fun h => h request rfl

theorem of_error {fault : Fault} (h : Settled (α := α) (.error fault)) :
    Settled (α := β) (.error fault) := fun request e => h request (by cases e; rfl)

theorem or_tailCall (reply : Except Fault α) :
    Settled reply ∨ ∃ request, reply = .error (.tailCall request) := by
  cases reply with
  | ok a => exact .inl (.ok a)
  | error fault =>
    cases fault with
    | tailCall request => exact .inr ⟨request, rfl⟩
    | _ => exact .inl fun _ h => nomatch h

end Settled

def Outcome.Resolved (o : Outcome Reply) : Prop :=
  ∀ request t, o ≠ .ok (.error (.tailCall request)) t

namespace Outcome

theorem resolved_error (h : Halt) (t : Store) : Resolved (.error h t) := fun _ _ e => nomatch e

theorem resolved_ok {reply : Reply} (settled : Settled reply) (t : Store) :
    Resolved (.ok reply t) := by
  rintro request _ e
  cases e
  exact settled request rfl

end Outcome

def Call.rebound (call : Call) (identity : Nat) : Closure Value :=
  ⟨identity, call.closure.target, call.closure.scope, call.closure.signature, call.supplied,
    call.closure.carried⟩

namespace Machine

section

variable (eval : Evaluator) (rounds : Nat) (settings : Settings) (state : Value)

def pursue (performed : UInt64) : Reply → Run Reply
  | .error (.tailCall next) => callLoop eval settings state rounds performed next
  | reply => pure reply

def requested (request : TailCall) : Call := ⟨request.closure, none, state, request.arguments⟩

variable {eval rounds settings state} {performed : UInt64} {request : TailCall} {reply : Reply}

theorem pursue_of_settled (h : Settled reply) :
    pursue eval rounds settings state performed reply = pure reply := by
  unfold pursue
  split
  · exact absurd rfl (h _)
  · rfl

theorem pursue_le {eval eval' : Evaluator} {m n : Nat}
    (le : ∀ task, Run.Le (eval task) (eval' task)) (h : m ≤ n) (settings : Settings)
    (state : Value) (performed : UInt64) (reply : Reply) :
    Run.Le (pursue eval m settings state performed reply)
      (pursue eval' n settings state performed reply) := by
  unfold pursue
  split
  · exact callLoop_le le h _ _ _ _
  · exact .refl _

theorem callLoop_of_exceeded {limit : UInt64}
    (h : settings.exceeded? (performed + 1) = some limit) :
    callLoop eval settings state (rounds + 1) performed request =
      pure (.error (.loopLimit limit)) := by
  simp only [callLoop, h]

theorem callLoop_of_within (h : settings.exceeded? (performed + 1) = none) :
    callLoop eval settings state (rounds + 1) performed request =
      eval (.dispatch settings (requested state request)) >>=
        pursue eval rounds settings state (performed + 1) := by
  simp only [callLoop, h]
  rfl

theorem settle_tailCall :
    settle eval rounds settings state (.error (.tailCall request)) =
      Run.emit (.callLoop request.closure.name) >>= fun _ =>
        callLoop eval settings state rounds 0 request := rfl

theorem settle_of_settled (h : Settled reply) :
    settle eval rounds settings state reply = pure reply := by
  unfold settle
  split
  · exact absurd rfl (h _)
  · rfl

end

section

variable {eval : Evaluator} {rounds : Nat} {settings : Settings} {state : Value} {s t : Store}

theorem callLoop_settled {performed : UInt64} {request : TailCall} {reply : Reply}
    (h : callLoop eval settings state rounds performed request s = .ok reply t) :
    Settled reply := by
  induction rounds generalizing performed request s with
  | zero => cases h
  | succ rounds ih =>
    cases exceeded : settings.exceeded? (performed + 1) with
    | some limit =>
      rw [callLoop_of_exceeded exceeded] at h
      cases h
      exact .loopLimit limit
    | none =>
      rw [callLoop_of_within exceeded] at h
      obtain ⟨answer, u, -, h⟩ := Run.bind_eq_ok.mp h
      rcases Settled.or_tailCall answer with settled | ⟨next, rfl⟩
      · rw [pursue_of_settled settled] at h
        cases h
        exact settled
      · exact ih h

theorem settle_settled {reply reply' : Reply}
    (h : settle eval rounds settings state reply s = .ok reply' t) : Settled reply' := by
  rcases Settled.or_tailCall reply with settled | ⟨request, rfl⟩
  · rw [settle_of_settled settled] at h
    cases h
    exact settled
  · rw [settle_tailCall] at h
    obtain ⟨_, _, -, h⟩ := Run.bind_eq_ok.mp h
    exact callLoop_settled h

theorem apply_settled {call : Call} {reply : Reply}
    (h : apply eval rounds settings call s = .ok reply t) : Settled reply := by
  obtain ⟨_, _, -, h⟩ := Run.bind_eq_ok.mp h
  exact settle_settled h

theorem force_settled {x : Suspension Value} {reply : Reply}
    (h : force eval rounds settings x state s = .ok reply t) : Settled reply := by
  obtain ⟨_, _, -, h⟩ := Run.bind_eq_ok.mp h
  exact settle_settled h

theorem forceValue_settled {steps : Nat} {v : Value} {reply : Reply}
    (h : forceValue eval rounds settings state steps v s = .ok reply t) : Settled reply := by
  induction steps generalizing v s with
  | zero => cases v <;> cases h <;> exact .ok _
  | succ steps ih =>
    cases v with
    | suspension x =>
      obtain ⟨forced, u, hf, h⟩ := Run.bind_eq_ok.mp h
      cases forced with
      | ok v => exact ih h
      | error fault =>
        cases h
        exact force_settled hf
    | _ => cases h; exact .ok _

theorem forceArgument_settled {p : Parameter} {v : Value} {reply : Reply}
    (h : forceArgument eval rounds settings state p v s = .ok reply t) : Settled reply := by
  unfold forceArgument at h
  by_cases suspended : p.isSuspended
  · rw [if_pos suspended] at h
    cases h
    exact .ok _
  · rw [if_neg suspended] at h
    exact forceValue_settled h

theorem forceArguments_settled {ps : List Parameter} {vs : List Value}
    {forced : Except Fault (List Value)}
    (h : forceArguments eval rounds settings state ps vs s = .ok forced t) : Settled forced := by
  induction ps generalizing vs forced s t with
  | nil => cases vs <;> cases h <;> exact .ok _
  | cons p ps ih =>
    cases vs with
    | nil => cases h; exact .ok _
    | cons v vs =>
      obtain ⟨first, u, hv, h⟩ := Run.bind_eq_ok.mp h
      cases first with
      | error fault =>
        cases h
        exact (forceArgument_settled hv).of_error
      | ok v =>
        obtain ⟨rest, w, hvs, h⟩ := Run.bind_eq_ok.mp h
        cases rest with
        | error fault =>
          cases h
          exact (ih hvs).of_error
        | ok vs => cases h; exact .ok _

theorem applySurplus_settled {call : Call} {reply reply' : Reply} (settled : Settled reply)
    (h : applySurplus eval rounds settings call reply s = .ok reply' t) : Settled reply' := by
  cases reply with
  | error fault =>
    cases h
    exact settled
  | ok v =>
    obtain ⟨_, u, -, h⟩ := Run.bind_eq_ok.mp h
    cases v with
    | closure next => exact apply_settled h
    | _ => cases h; exact .notAFunction _

theorem bindSupplied_of_unsaturated {call : Call} (h : call.isSaturated = false) :
    bindSupplied call s = .ok (.ok (.closure (call.rebound s.nextIdentity)))
      { nextIdentity := s.nextIdentity + 1
        tally := s.tally.count .closure
        journal := .event (.partialApplication call.closure.name call.supplied.length
          call.closure.arity) :: s.journal } := by
  have fits : ¬ call.closure.signature.arity < call.supplied.length :=
    Nat.lt_asymm (Signature.lt_arity_of_not_isSaturatedBy h)
  exact Run.bind_of_ok (Run.newClosure_of_fits fits)

theorem bindSupplied_settled {call : Call} {reply : Reply} (h : bindSupplied call s = .ok reply t) :
    Settled reply := by
  obtain ⟨_, s₁, -, h⟩ := Run.bind_eq_ok.mp h
  obtain ⟨f, s₂, -, h⟩ := Run.bind_eq_ok.mp h
  cases h
  exact .ok _

theorem applyInFrame_of_loop {call : Call}
    (loop : call.closure.signature.strategy = .loop) :
    applyInFrame eval rounds settings call = apply eval rounds settings call := by
  unfold applyInFrame apply
  rw [loop]

theorem applyInFrame_of_direct {call : Call}
    (direct : call.closure.signature.strategy = .direct) :
    applyInFrame eval rounds settings call = eval (.dispatch settings call) := by
  unfold applyInFrame
  rw [direct]
  exact bind_pure _

end

end Machine

end Callable
