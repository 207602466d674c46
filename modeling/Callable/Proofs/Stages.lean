import Callable.Proofs.Evaluation

/-! The stages of an application on the machine. A saturated one forces what is left of its
arguments, invokes the body and, where there is a surplus, finishes with that. A stage is taken
apart here so that each rule of `Evaluates` has one step of the machine to be compared with. -/

namespace Callable

/-- What is carried for the result of the body, and then the arguments beyond its parameters. -/
def Call.leftOver (call : Call) : List Value :=
  call.closure.carried ++
    (call.closure.bound ++ call.arguments).drop call.closure.signature.parameters.length

theorem Call.surplus_eq_leftOver (call : Call) : call.surplus = call.leftOver := rfl

namespace Machine

section

variable (eval : Evaluator) (rounds : Nat) (settings : Settings)

def invokeBody (call : Call) (arguments : List Value) : Run Reply := do
  let caller ← presentedCaller call
  eval (.invoke (.application call) (.ofClosure call.closure caller call.state arguments))

def forceOnward (call : Call) (forced : List Value) (ps : List Parameter) (rest : List Value) :
    Run Reply := do
  match ← forceArguments eval rounds settings call.state ps rest with
  | .error fault => pure (.error fault)
  | .ok vs => invokeBody eval call (forced ++ vs)

/-- The reply of the body, with a surplus out of account. -/
def bodyReply (call : Call) : Run Reply :=
  forceOnward eval rounds settings call [] call.closure.signature.parameters call.positional

def finish (call : Call) (reply : Reply) : Run Reply :=
  if call.surplus.isEmpty then pure reply
  else settle eval rounds settings call.state reply >>= applySurplus eval rounds settings call

variable {eval rounds settings} {call : Call} {s : Store}

theorem presentedCaller_ok (call : Call) (s : Store) :
    ∃ caller t, presentedCaller call s = .ok caller t := by
  unfold presentedCaller
  cases call.caller with
  | some caller => exact ⟨_, _, rfl⟩
  | none =>
    cases call.closure.signature.passesCaller with
    | true => exact ⟨_, _, rfl⟩
    | false => exact ⟨_, _, rfl⟩

theorem announce_eq (settings : Settings) (call : Call) (s : Store) :
    announce settings call s = .ok () (s.log ((Policy.loops settings).announce call)) := by
  unfold announce Policy.loops
  cases settings.traceCalls with
  | true => rfl
  | false => rfl

section

variable {forced : List Value} {ps : List Parameter} {rest : List Value} {t : Store}

theorem forceOnward_of_halt {h : Halt}
    (e : forceArguments eval rounds settings call.state ps rest s = .error h t) :
    forceOnward eval rounds settings call forced ps rest s = .error h t :=
  Run.bind_of_error e

theorem forceOnward_of_fault {fault : Fault}
    (e : forceArguments eval rounds settings call.state ps rest s = .ok (.error fault) t) :
    forceOnward eval rounds settings call forced ps rest s = .ok (.error fault) t :=
  Run.bind_of_ok e

theorem forceOnward_of_ok {vs : List Value}
    (e : forceArguments eval rounds settings call.state ps rest s = .ok (.ok vs) t) :
    forceOnward eval rounds settings call forced ps rest s =
      invokeBody eval call (forced ++ vs) t :=
  Run.bind_of_ok e

theorem forceOnward_of_done (all : ps = [] ∨ rest = []) :
    forceOnward eval rounds settings call forced ps rest =
      invokeBody eval call (forced ++ rest) := by
  rcases all with rfl | rfl
  · cases rest <;> rfl
  · cases ps <;> rfl

theorem forceOnward_cons_of_halt {p : Parameter} {v : Value} {h : Halt}
    (first : forceArgument eval rounds settings call.state p v s = .error h t) :
    forceOnward eval rounds settings call forced (p :: ps) (v :: rest) s = .error h t :=
  forceOnward_of_halt (Run.bind_of_error first)

theorem forceOnward_cons_of_fault {p : Parameter} {v : Value} {fault : Fault}
    (first : forceArgument eval rounds settings call.state p v s = .ok (.error fault) t) :
    forceOnward eval rounds settings call forced (p :: ps) (v :: rest) s =
      .ok (.error fault) t :=
  forceOnward_of_fault (Run.bind_of_ok first)

theorem forceOnward_cons_of_ok {p : Parameter} {v w : Value}
    (first : forceArgument eval rounds settings call.state p v s = .ok (.ok w) t) :
    forceOnward eval rounds settings call forced (p :: ps) (v :: rest) s =
      forceOnward eval rounds settings call (forced ++ [w]) ps rest t := by
  cases others : forceArguments eval rounds settings call.state ps rest t with
  | error h u =>
    rw [forceOnward_of_halt others]
    exact forceOnward_of_halt ((Run.bind_of_ok first).trans (Run.bind_of_error others))
  | ok forced' u =>
    cases forced' with
    | error fault =>
      rw [forceOnward_of_fault others]
      exact forceOnward_of_fault ((Run.bind_of_ok first).trans (Run.bind_of_ok others))
    | ok ws =>
      rw [forceOnward_of_ok others, List.append_assoc, List.singleton_append]
      exact forceOnward_of_ok ((Run.bind_of_ok first).trans (Run.bind_of_ok others))

end

theorem finish_of_exact (none_left : call.surplus = []) :
    finish eval rounds settings call = pure := by
  funext reply
  simp [finish, none_left]

theorem finish_of_excess (left : call.surplus ≠ []) :
    finish eval rounds settings call = fun reply =>
      settle eval rounds settings call.state reply >>= applySurplus eval rounds settings call := by
  funext reply
  simp [finish, left]

theorem finish_of_fault {fault : Fault} (settled : Settled (.error fault : Reply)) :
    finish eval rounds settings call (.error fault) = pure (.error fault) := by
  unfold finish
  split
  · rfl
  · rw [settle_of_settled settled]
    rfl

theorem runBody_eq :
    runBody eval rounds settings call s =
      (bodyReply eval rounds settings call >>= finish eval rounds settings call) s := by
  cases h : forceArguments eval rounds settings call.state call.closure.signature.parameters
      call.positional s with
  | error e t =>
    have body : bodyReply eval rounds settings call s = .error e t := forceOnward_of_halt h
    rw [Run.bind_of_error body]
    exact Run.bind_of_error h
  | ok forced t =>
    refine (Run.bind_of_ok h).trans ?_
    cases forced with
    | error fault =>
      have body : bodyReply eval rounds settings call s = .ok (.error fault) t :=
        forceOnward_of_fault h
      rw [Run.bind_of_ok body, finish_of_fault (forceArguments_settled h).of_error]
    | ok vs =>
      obtain ⟨caller, u, presented⟩ := presentedCaller_ok call t
      refine (Run.bind_of_ok presented).trans ?_
      have body : bodyReply eval rounds settings call s = eval (.invoke (.application call)
          (.ofClosure call.closure caller call.state vs)) u :=
        (forceOnward_of_ok h).trans (Run.bind_of_ok presented)
      cases reply : eval (.invoke (.application call)
          (.ofClosure call.closure caller call.state vs)) u with
      | error e w =>
        rw [Run.bind_of_error (body.trans reply)]
        exact Run.bind_of_error reply
      | ok r w =>
        rw [Run.bind_of_ok (body.trans reply)]
        exact Run.bind_of_ok reply

theorem dispatch_of_unsaturated (unsaturated : call.isSaturated = false) :
    dispatch eval rounds settings call s =
      bindSupplied call (s.log ((Policy.loops settings).announce call)) := by
  refine (Run.bind_of_ok (announce_eq settings call s)).trans ?_
  rw [if_neg (by simp [unsaturated])]

theorem dispatch_of_saturated (saturated : call.isSaturated = true) :
    dispatch eval rounds settings call s =
      (bodyReply eval rounds settings call >>= finish eval rounds settings call)
        (s.log ((Policy.loops settings).announce call)) := by
  refine (Run.bind_of_ok (announce_eq settings call s)).trans ?_
  rw [if_pos saturated]
  exact runBody_eq

theorem dispatch_of_presented {arguments : List Value} {caller : Option Caller} {t u : Store}
    (saturated : call.isSaturated = true)
    (forced : forceArguments eval rounds settings call.state call.closure.signature.parameters
      call.positional (s.log ((Policy.loops settings).announce call)) = .ok (.ok arguments) t)
    (presented : presentedCaller call t = .ok caller u) :
    dispatch eval rounds settings call s =
      (eval (.invoke (.application call) (.ofClosure call.closure caller call.state arguments)) >>=
        finish eval rounds settings call) u := by
  have body : bodyReply eval rounds settings call
      (s.log ((Policy.loops settings).announce call)) = eval (.invoke (.application call)
        (.ofClosure call.closure caller call.state arguments)) u :=
    (forceOnward_of_ok forced).trans (Run.bind_of_ok presented)
  rw [dispatch_of_saturated saturated, Run.bind_congr body]

theorem dispatch_of_exact (saturated : call.isSaturated = true) (none_left : call.surplus = []) :
    dispatch eval rounds settings call s =
      bodyReply eval rounds settings call (s.log ((Policy.loops settings).announce call)) := by
  rw [dispatch_of_saturated saturated, finish_of_exact none_left, bind_pure]

theorem dispatch_of_excess (saturated : call.isSaturated = true) (left : call.surplus ≠ []) :
    dispatch eval rounds settings call s =
      ((bodyReply eval rounds settings call >>= settle eval rounds settings call.state) >>=
        applySurplus eval rounds settings call)
        (s.log ((Policy.loops settings).announce call)) := by
  rw [dispatch_of_saturated saturated, finish_of_excess left, bind_assoc]

end

end Machine

end Callable
