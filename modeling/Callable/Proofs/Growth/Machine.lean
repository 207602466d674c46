import Callable.Proofs.Growth
import Callable.Proofs.Stages

/-! What runs does not take back what is in the journal, whatever the bodies do: they may apply
closures through any dispatcher. One lemma a function of the machine, over an evaluator that only
adds to the journal, and then `Machine.evaluate` by induction on fuel. -/

namespace Callable.Run.Extends

open Machine

theorem pure {α : Type} (a : α) : Extends (Pure.pure a : Run α) := same fun _ => rfl

theorem exhausted {α : Type} : Extends (throw .exhausted : Run α) := same fun _ => rfl

section

variable {eval : Evaluator} (adds : ∀ task, Extends (eval task)) {rounds : Nat}
  {settings : Settings} {state : Value}

include adds

theorem callLoop (performed : UInt64) (request : TailCall) :
    Extends (Machine.callLoop eval settings state rounds performed request) := by
  induction rounds generalizing performed request with
  | zero => exact exhausted
  | succ rounds ih =>
    cases exceeded : settings.exceeded? (performed + 1) with
    | some limit =>
      rw [callLoop_of_exceeded exceeded]
      exact pure _
    | none =>
      rw [callLoop_of_within exceeded]
      refine .bind (adds _) fun reply => ?_
      rcases Settled.or_tailCall reply with settled | ⟨next, rfl⟩
      · rw [pursue_of_settled settled]
        exact pure _
      · exact ih (performed + 1) next

theorem settle (reply : Reply) : Extends (Machine.settle eval rounds settings state reply) := by
  rcases Settled.or_tailCall reply with settled | ⟨request, rfl⟩
  · rw [settle_of_settled settled]
    exact pure _
  · rw [settle_tailCall]
    exact .bind (record _) fun _ => callLoop adds 0 request

theorem apply (call : Call) : Extends (Machine.apply eval rounds settings call) :=
  .bind (adds _) fun reply => settle adds reply

theorem applyInFrame (call : Call) : Extends (Machine.applyInFrame eval rounds settings call) := by
  cases strategy : call.closure.signature.strategy with
  | loop =>
    rw [applyInFrame_of_loop strategy]
    exact apply adds call
  | direct =>
    rw [applyInFrame_of_direct strategy]
    exact adds _

theorem force (t : Suspension Value) : Extends (Machine.force eval rounds settings t state) :=
  .bind (adds _) fun reply => settle adds reply

theorem forceValue (steps : Nat) (v : Value) :
    Extends (Machine.forceValue eval rounds settings state steps v) := by
  induction steps generalizing v with
  | zero => cases v <;> exact same fun _ => rfl
  | succ steps ih =>
    cases v with
    | suspension t =>
      refine .bind (force adds t) fun reply => ?_
      cases reply with
      | ok v => exact ih v
      | error fault => exact pure _
    | _ => exact pure _

theorem forceArgument (p : Parameter) (v : Value) :
    Extends (Machine.forceArgument eval rounds settings state p v) := by
  unfold Machine.forceArgument
  split
  · exact pure _
  · exact forceValue adds rounds v

theorem forceArguments (ps : List Parameter) (vs : List Value) :
    Extends (Machine.forceArguments eval rounds settings state ps vs) := by
  induction ps generalizing vs with
  | nil => cases vs <;> exact pure _
  | cons p ps ih =>
    cases vs with
    | nil => exact pure _
    | cons v vs =>
      refine .bind (forceArgument adds p v) fun first => ?_
      cases first with
      | error fault => exact pure _
      | ok v =>
        refine .bind (ih vs) fun rest => ?_
        cases rest <;> exact pure _

theorem applySurplus (call : Call) (reply : Reply) :
    Extends (Machine.applySurplus eval rounds settings call reply) := by
  cases reply with
  | error fault => exact pure _
  | ok v =>
    refine .bind (record _) fun _ => ?_
    cases v with
    | closure next => exact apply adds _
    | _ => exact pure _

theorem finish (call : Call) (reply : Reply) :
    Extends (Machine.finish eval rounds settings call reply) := by
  unfold Machine.finish
  split
  · exact pure _
  · exact .bind (settle adds reply) fun settled => applySurplus adds call settled

theorem runBody (call : Call) : Extends (Machine.runBody eval rounds settings call) := by
  refine .bind (forceArguments adds _ _) fun forced => ?_
  cases forced with
  | error fault => exact pure _
  | ok arguments =>
    refine .bind (Idles.presentedCaller call).grows fun caller => ?_
    exact .bind (adds _) fun reply => finish adds call reply

theorem dispatch (call : Call) : Extends (Machine.dispatch eval rounds settings call) := by
  have announces : Extends (announce settings call) := by
    refine .bind (record _) fun _ => ?_
    split
    · exact record _
    · exact pure _
  refine .bind announces fun _ => ?_
  split
  · exact runBody adds call
  · exact (Idles.bindSupplied call).grows

theorem answer (r : Request) : Extends (Machine.answer eval rounds r) := by
  cases r with
  | newClosure | newSuspension | newScope | newCaller | note =>
    exact (Idles.answer (by trivial)).grows
  | apply dispatcher call =>
    cases dispatcher with
    | currying settings => exact apply adds call
    | host answer => exact pure _
  | applyInFrame dispatcher call =>
    cases dispatcher with
    | currying settings => exact applyInFrame adds call
    | host answer => exact pure _
  | force settings t state => exact force adds t
  | resume t state => exact adds _
  | invoke target payload => exact adds _

theorem perform {α : Type} (p : Program α) : Extends (p.perform (Machine.answer eval rounds)) := by
  induction p with
  | done a => exact pure a
  | ask r next ih => exact .bind (answer adds r) ih

end

theorem evaluate (bodies : Bodies) (fuel : Nat) (task : Task) :
    Extends (Machine.evaluate bodies fuel task) := by
  induction fuel generalizing task with
  | zero => exact exhausted
  | succ fuel ih =>
    cases task with
    | dispatch settings call => exact dispatch ih call
    | invoke callee payload => exact .bind (record _) fun _ => perform ih _

end Callable.Run.Extends

namespace Callable.Machine

variable {bodies : Bodies} {callee : Callee} {payload : Payload} {fuel : Nat} {s t : Store}

theorem invoked_of_reply {reply : Reply}
    (run : evaluate bodies fuel (.invoke callee payload) s = .ok reply t) :
    .invoked callee payload :: s.journal <:+ t.journal := by
  cases fuel with
  | zero => cases run
  | succ fuel =>
    obtain ⟨_, _, recorded, performed⟩ := Run.bind_eq_ok.mp run
    cases recorded
    have adds := Run.Extends.evaluate bodies fuel
    exact (Run.Extends.perform adds _).of_eq performed

end Callable.Machine
