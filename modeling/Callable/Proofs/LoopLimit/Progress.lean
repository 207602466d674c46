import Callable.Proofs.LoopLimit.Balance
import Callable.Proofs.Realization
import Callable.Proofs.TailCalls
import Callable.Proofs.Truncation

/-! Progress of the machine. Where every body finishes, a run comes to an answer, or it goes on to
invoke closures and to run suspensions without end: for each number of steps there is an amount of
fuel that suffices for the one or the other. The induction is on the steps that are missing. -/

namespace Callable

/-- The steps of a journal: the invocations of applied closures and of suspensions. -/
def steps (j : List Entry) : Nat := j.countP Entry.invokesClosure + j.countP Entry.runsSuspension

theorem steps_mono {j j' : List Entry} (h : j <:+ j') : steps j ≤ steps j' :=
  Nat.add_le_add h.sublist.countP_le h.sublist.countP_le

theorem steps_append (j j' : List Entry) : steps (j ++ j') = steps j + steps j' := by
  simp only [steps, List.countP_append]
  omega

theorem steps_application (call : Call) (payload : Payload) (j : List Entry) :
    steps (.invoked (.application call) payload :: j) = steps j + 1 := by
  simp only [steps, List.countP_cons, Entry.invokesClosure, Entry.runsSuspension, if_true,
    Bool.false_eq_true, if_false]
  omega

theorem steps_suspension (t : Suspension Value) (payload : Payload) (j : List Entry) :
    steps (.invoked (.suspension t) payload :: j) = steps j + 1 := by
  simp only [steps, List.countP_cons, Entry.invokesClosure, Entry.runsSuspension, if_true,
    Bool.false_eq_true, if_false]
  omega

/-- A run, given for each amount of fuel, that comes to an answer, or that makes `goal` steps if
it has enough fuel. -/
def Reaches {α : Type} (goal : Nat) (x : Nat → Run α) (s : Store) : Prop :=
  (∃ a t enough, ∀ fuel, enough ≤ fuel → x fuel s = .ok a t) ∨
    ∃ enough, ∀ fuel, enough ≤ fuel → goal ≤ steps (Run.journal (x fuel) s)

namespace Reaches

variable {α β : Type} {goal : Nat} {x y : Nat → Run α} {s t : Store}

theorem constant {a : α} (h : ∀ fuel, x fuel s = .ok a t) : Reaches goal x s :=
  .inl ⟨a, t, 0, fun fuel _ => h fuel⟩

theorem of_steps (grows : ∀ fuel, (x fuel).Extends) (enough : goal ≤ steps s.journal) :
    Reaches goal x s :=
  .inr ⟨0, fun fuel _ => enough.trans (steps_mono (grows fuel s))⟩

theorem congr (h : Reaches goal x s) (same : ∀ fuel, y fuel t = x fuel s) : Reaches goal y t := by
  rcases h with ⟨a, u, enough, run⟩ | ⟨enough, reached⟩
  · exact .inl ⟨a, u, enough, fun fuel more => (same fuel).trans (run fuel more)⟩
  · refine .inr ⟨enough, fun fuel more => ?_⟩
    rw [Run.journal_of_eq (same fuel)]
    exact reached fuel more

theorem bind {f : α → Nat → Run β} (h : Reaches goal x s)
    (grows : ∀ a fuel, (f a fuel).Extends)
    (onward : ∀ a t fuel, x fuel s = .ok a t → Reaches goal (f a) t) :
    Reaches goal (fun fuel => x fuel >>= fun a => f a fuel) s := by
  rcases h with ⟨a, t, enough, run⟩ | ⟨enough, reached⟩
  · have whole (fuel) (more : enough ≤ fuel) : (x fuel >>= fun a => f a fuel) s = f a fuel t :=
      Run.bind_of_ok (run fuel more)
    rcases onward a t enough (run enough (Nat.le_refl _)) with
      ⟨b, u, enough', run'⟩ | ⟨enough', reached⟩
    · exact .inl ⟨b, u, max enough enough', fun fuel more =>
        (whole fuel (by omega)).trans (run' fuel (by omega))⟩
    · refine .inr ⟨max enough enough', fun fuel more => ?_⟩
      rw [Run.journal_of_eq (whole fuel (by omega))]
      exact reached fuel (by omega)
  · refine .inr ⟨enough, fun fuel more => (reached fuel more).trans (steps_mono ?_)⟩
    exact Run.Extends.journal_bind (fun a => grows a fuel) _ s

theorem further (h : Reaches goal x s) (le : ∀ fuel, Run.Le (x fuel) (y fuel))
    (part : ∀ fuel, Run.journal (x fuel) s <:+ Run.journal (y fuel) s) : Reaches goal y s := by
  rcases h with ⟨a, t, enough, run⟩ | ⟨enough, reached⟩
  · exact .inl ⟨a, t, enough, fun fuel more => (le fuel).eq_of_finished (run fuel more) trivial⟩
  · exact .inr ⟨enough, fun fuel more => (reached fuel more).trans (steps_mono (part fuel))⟩

theorem succ (h : Reaches goal x s) : Reaches goal (fun fuel => x (fuel + 1)) s := by
  rcases h with ⟨a, t, enough, run⟩ | ⟨enough, reached⟩
  · exact .inl ⟨a, t, enough, fun fuel more => run (fuel + 1) (by omega)⟩
  · exact .inr ⟨enough, fun fuel more => reached (fuel + 1) (by omega)⟩

theorem of_succ (h : Reaches goal (fun fuel => x (fuel + 1)) s) : Reaches goal x s := by
  have earlier {fuel enough} (more : enough + 1 ≤ fuel) :
      ∃ n, fuel = n + 1 ∧ enough ≤ n := ⟨fuel - 1, by omega⟩
  rcases h with ⟨a, t, enough, run⟩ | ⟨enough, reached⟩
  · refine .inl ⟨a, t, enough + 1, fun fuel more => ?_⟩
    obtain ⟨n, rfl, left⟩ := earlier more
    exact run n left
  · refine .inr ⟨enough + 1, fun fuel more => ?_⟩
    obtain ⟨n, rfl, left⟩ := earlier more
    exact reached n left

end Reaches

def Bodies.Finishing (bodies : Bodies) : Prop := ∀ callee payload s, ∃ reply t,
  Ends bodies (fun eval _ => eval (.invoke callee payload)) s (.ok reply t)

namespace Machine

section

variable {bodies : Bodies} {settings : Settings} {goal : Nat} {s t : Store}

/-- Whatever the machine does in that store leads to an answer or to so many steps. -/
structure Advances (bodies : Bodies) (settings : Settings) (goal : Nat) (s : Store) : Prop where
  dispatch : ∀ call, Reaches goal (fun fuel => evaluate bodies fuel (.dispatch settings call)) s
  loop : ∀ state performed request, Reaches goal
    (fun fuel => callLoop (evaluate bodies fuel) settings state fuel performed request) s
  forced : ∀ state v, Reaches goal
    (fun fuel => forceValue (evaluate bodies fuel) fuel settings state fuel v) s

def AdvancesAfter (bodies : Bodies) (settings : Settings) (goal : Nat) (s : Store) : Prop :=
  ∀ t, steps s.journal < steps t.journal → Advances bodies settings goal t

def AdvancesFrom (bodies : Bodies) (settings : Settings) (goal : Nat) (s : Store) : Prop :=
  ∀ t, s.journal <:+ t.journal → Advances bodies settings goal t

theorem AdvancesFrom.mono (onward : AdvancesFrom bodies settings goal s)
    (more : s.journal <:+ t.journal) : AdvancesFrom bodies settings goal t :=
  fun u grown => onward u (more.trans grown)

theorem AdvancesAfter.onward (after : AdvancesAfter bodies settings goal s)
    (more : steps s.journal < steps t.journal) : AdvancesFrom bodies settings goal t :=
  fun u grown => after u (lt_of_lt_of_le more (steps_mono grown))

theorem AdvancesAfter.mono (after : AdvancesAfter bodies settings goal s)
    (more : s.journal <:+ t.journal) : AdvancesAfter bodies settings goal t :=
  fun u further => after u (lt_of_le_of_lt (steps_mono more) further)

theorem settle_reaches (onward : AdvancesFrom bodies settings goal t) (state : Value)
    (reply : Reply) :
    Reaches goal (fun fuel => settle (evaluate bodies fuel) fuel settings state reply) t := by
  rcases Settled.or_tailCall reply with settled | ⟨request, rfl⟩
  · exact .constant fun _ => congrFun (settle_of_settled settled) t
  · have entered := onward (t.log [.event (.callLoop request.closure.name)]) (t.suffix_log _)
    exact (entered.loop state 0 request).congr fun _ => rfl

theorem invoke_reaches (finishing : bodies.Finishing) (callee : Callee) (payload : Payload)
    (s : Store) : Reaches goal (fun fuel => evaluate bodies fuel (.invoke callee payload)) s := by
  obtain ⟨reply, t, enough, run⟩ := finishing callee payload s
  exact .inl ⟨reply, t, enough, run⟩

theorem apply_reaches (onward : AdvancesFrom bodies settings goal t) (call : Call) :
    Reaches goal (fun fuel => apply (evaluate bodies fuel) fuel settings call) t := by
  refine .bind ((onward t (List.suffix_refl _)).dispatch call)
    (fun reply fuel => .settle (.evaluate bodies fuel) reply)
    fun reply u fuel run => ?_
  have grown := (Run.Extends.evaluate bodies fuel (.dispatch settings call)).of_eq run
  exact settle_reaches (onward.mono grown) call.state reply

theorem applySurplus_reaches (onward : AdvancesFrom bodies settings goal t) (call : Call)
    (reply : Reply) :
    Reaches goal (fun fuel => applySurplus (evaluate bodies fuel) fuel settings call reply) t := by
  cases reply with
  | error fault => exact .constant fun _ => rfl
  | ok v =>
    cases v with
    | closure next =>
      have applied := apply_reaches (onward.mono (t.suffix_log
        [.event (.surplus call.closure.name call.surplus.length)]))
        ⟨next, none, call.state, call.surplus⟩
      exact applied.congr fun _ => rfl
    | _ => exact .constant fun _ => rfl

theorem finish_reaches (onward : AdvancesFrom bodies settings goal t) (call : Call)
    (reply : Reply) :
    Reaches goal (fun fuel => finish (evaluate bodies fuel) fuel settings call reply) t := by
  by_cases left : call.surplus = []
  · simp only [finish_of_exact left]
    exact .constant fun _ => rfl
  · simp only [finish_of_excess left]
    refine .bind (settle_reaches onward call.state reply) (fun settled fuel => ?_)
      fun settled u fuel run => ?_
    · exact .applySurplus (.evaluate bodies fuel) call settled
    · have grown := (Run.Extends.settle (.evaluate bodies fuel) reply).of_eq run
      exact applySurplus_reaches (onward.mono grown) call settled

theorem steps_of_forced {x : Suspension Value} {state : Value} {fuel : Nat} {reply : Reply}
    (run : force (evaluate bodies fuel) fuel settings x state s = .ok reply t) :
    steps s.journal < steps t.journal := by
  obtain ⟨resumed, u, resuming, settling⟩ := Run.bind_eq_ok.mp run
  have invoked := steps_mono (invoked_of_reply resuming)
  have grown := (Run.Extends.settle (.evaluate bodies fuel) resumed).of_eq settling
  rw [steps_suspension] at invoked
  exact lt_of_lt_of_le invoked (steps_mono grown)

theorem steps_of_tailCall {call : Call} {request : TailCall} {fuel : Nat}
    (run : evaluate bodies fuel (.dispatch settings call) s = .ok (.error (.tailCall request)) t) :
    steps s.journal < steps t.journal := by
  cases fuel with
  | zero => cases run
  | succ fuel =>
    obtain ⟨-, s₁, announced, body⟩ := dispatch_eq_tailCall.mp run
    obtain ⟨-, arguments, caller, s₂, s₃, forced, presented, asked⟩ := runBody_eq_tailCall.mp body
    have announcing : s.journal <:+ s₁.journal := by
      cases (announce_eq settings call s).symm.trans announced
      exact Store.suffix_log s _
    have forcing := (Run.Extends.forceArguments (.evaluate bodies fuel) _ _).of_eq forced
    have presenting := (Run.Idles.presentedCaller call).grows.of_eq presented
    have invoked := steps_mono (invoked_of_reply asked)
    rw [steps_application] at invoked
    exact lt_of_le_of_lt (steps_mono (announcing.trans (forcing.trans presenting))) invoked

section

variable (undispatched : bodies.Undispatched) (finishing : bodies.Finishing)

include finishing

theorem force_reaches (after : AdvancesAfter bodies settings goal s) (x : Suspension Value)
    (state : Value) :
    Reaches goal (fun fuel => force (evaluate bodies fuel) fuel settings x state) s := by
  refine .bind (invoke_reaches finishing _ _ s)
    (fun reply fuel => .settle (.evaluate bodies fuel) reply)
    fun reply u fuel run => ?_
  have invoked := steps_mono (invoked_of_reply run)
  rw [steps_suspension] at invoked
  exact settle_reaches (after.onward invoked) state reply

include undispatched

theorem forceValue_reaches (after : AdvancesAfter bodies settings goal s) (state v : Value) :
    Reaches goal (fun fuel => forceValue (evaluate bodies fuel) fuel settings state fuel v) s := by
  by_cases plain : ∀ x, v ≠ .suspension x
  · exact .constant fun _ => congrFun (forceValue_of_plain plain) s
  · obtain ⟨x, rfl⟩ : ∃ x, v = .suspension x := by simpa using plain
    refine .of_succ ?_
    refine .bind (force_reaches finishing after x state).succ
      (fun reply fuel => ?_) fun reply u fuel run => ?_
    · cases reply with
      | error fault => exact .same fun _ => rfl
      | ok w => exact .forceValue (.evaluate bodies (fuel + 1)) fuel w
    · cases reply with
      | error fault => exact .constant fun _ => rfl
      | ok w =>
        -- what is known has a unit of fuel less for the evaluator; with more it goes further
        have more := steps_of_forced run
        refine ((after u more).forced state w).further (fun fuel => ?_) fun fuel => ?_
        · exact forceValue_le (evaluate_le bodies (Nat.le_succ _)) (Nat.le_succ _) settings state
            (Nat.le_refl _) w
        · exact (forceValue_truncates (.refl settings) (.evaluate bodies _)
            (evaluate_truncates undispatched (.refl settings) (Nat.le_succ fuel))
            (Nat.le_succ _) (Nat.le_refl _) w).journal u

theorem forceArgument_reaches (after : AdvancesAfter bodies settings goal s) (state : Value)
    (p : Parameter) (v : Value) :
    Reaches goal (fun fuel => forceArgument (evaluate bodies fuel) fuel settings state p v) s := by
  cases suspended : p.isSuspended with
  | true => exact .constant fun fuel => by simp only [forceArgument, suspended]; rfl
  | false =>
    simp only [forceArgument_of_executed suspended]
    exact forceValue_reaches undispatched finishing after state v

theorem forceArguments_reaches (after : AdvancesAfter bodies settings goal s) (state : Value)
    (ps : List Parameter) (vs : List Value) :
    Reaches goal (fun fuel => forceArguments (evaluate bodies fuel) fuel settings state ps vs)
      s := by
  induction ps generalizing vs s with
  | nil => cases vs <;> exact .constant fun _ => rfl
  | cons p ps ih =>
    cases vs with
    | nil => exact .constant fun _ => rfl
    | cons v vs =>
      refine .bind (forceArgument_reaches undispatched finishing after state p v)
        (fun first fuel => ?_) fun first t fuel run => ?_
      · cases first with
        | error fault => exact .same fun _ => rfl
        | ok w =>
          refine .bind (.forceArguments (.evaluate bodies fuel) ps vs)
            fun rest => ?_
          cases rest <;> exact .same fun _ => rfl
      · cases first with
        | error fault => exact .constant fun _ => rfl
        | ok w =>
          have grown := (Run.Extends.forceArgument (.evaluate bodies fuel) p v).of_eq run
          refine .bind (ih (after.mono grown) vs) (fun rest fuel => ?_) fun rest u fuel run => ?_
          · cases rest <;> exact .same fun _ => rfl
          · cases rest <;> exact .constant fun _ => rfl

theorem runBody_reaches (after : AdvancesAfter bodies settings goal s) (call : Call) :
    Reaches goal (fun fuel => runBody (evaluate bodies fuel) fuel settings call) s := by
  refine .bind (forceArguments_reaches undispatched finishing after call.state
    call.closure.signature.parameters call.positional) (fun forced fuel => ?_)
    fun forced t fuel run => ?_
  · cases forced with
    | error fault => exact .same fun _ => rfl
    | ok arguments =>
      exact .bind (Run.Idles.presentedCaller call).grows fun caller =>
        .bind (Run.Extends.evaluate bodies fuel _) fun reply =>
          .finish (.evaluate bodies fuel) call reply
  · cases forced with
    | error fault => exact .constant fun _ => rfl
    | ok arguments =>
      have forcing := (Run.Extends.forceArguments (.evaluate bodies fuel) _ _).of_eq run
      obtain ⟨caller, u, presented⟩ := presentedCaller_ok call t
      have presenting := (Run.Idles.presentedCaller call).grows.of_eq presented
      have body : Reaches goal (fun fuel =>
          evaluate bodies fuel (bodyTask call caller arguments) >>=
            finish (evaluate bodies fuel) fuel settings call) u := by
        refine .bind (invoke_reaches finishing _ _ u)
          (fun reply fuel => .finish (.evaluate bodies fuel) call reply)
          fun reply w fuel run => ?_
        have invoked := steps_mono (invoked_of_reply run)
        rw [steps_application] at invoked
        have from_body := (after.mono (forcing.trans presenting)).onward invoked
        exact finish_reaches from_body call reply
      exact body.congr fun fuel => Run.bind_of_ok presented

theorem dispatch_reaches (after : AdvancesAfter bodies settings goal s) (call : Call) :
    Reaches goal (fun fuel => evaluate bodies fuel (.dispatch settings call)) s := by
  refine .of_succ ?_
  have announced := announce_eq settings call s
  cases saturated : call.isSaturated with
  | false =>
    exact .constant fun fuel => (dispatch_of_unsaturated saturated).trans
      (bindSupplied_of_unsaturated saturated)
  | true =>
    have body := runBody_reaches undispatched finishing
      (after.mono (Store.suffix_log s ((Policy.loops settings).announce call))) call
    refine body.congr fun fuel => (Run.bind_of_ok announced).trans ?_
    rw [if_pos saturated]

theorem callLoop_reaches (after : AdvancesAfter bodies settings goal s) (state : Value)
    (performed : UInt64) (request : TailCall) :
    Reaches goal
      (fun fuel => callLoop (evaluate bodies fuel) settings state fuel performed request) s := by
  refine .of_succ ?_
  cases exceeded : settings.exceeded? (performed + 1) with
  | some limit => exact .constant fun fuel => congrFun (callLoop_of_exceeded exceeded) s
  | none =>
    simp only [callLoop_of_within exceeded]
    refine .bind (dispatch_reaches undispatched finishing after _).succ (fun reply fuel => ?_)
      fun reply u fuel run => ?_
    · rcases Settled.or_tailCall reply with settled | ⟨next, rfl⟩
      · rw [pursue_of_settled settled]
        exact .same fun _ => rfl
      · exact .callLoop (.evaluate bodies (fuel + 1)) (performed + 1) next
    · rcases Settled.or_tailCall reply with settled | ⟨next, rfl⟩
      · exact .constant fun fuel => congrFun (pursue_of_settled settled) u
      · have more := steps_of_tailCall run
        refine ((after u more).loop state (performed + 1) next).further (fun fuel => ?_)
          fun fuel => ?_
        · exact callLoop_le (evaluate_le bodies (Nat.le_succ _)) (Nat.le_refl _) settings state _ _
        · exact (callLoop_truncates (.refl settings) (.evaluate bodies _)
            (evaluate_truncates undispatched (.refl settings) (Nat.le_succ fuel))
            (Nat.le_refl _) (performed + 1) next).journal u

/-- With enough fuel, the machine advances in every store: it does so where more steps have been
made, and where `goal` steps have been made there is nothing left to do. -/
theorem advances (s : Store) : Advances bodies settings goal s := by
  induction missing : goal - steps s.journal using Nat.strong_induction_on generalizing s with
  | _ missing ih =>
    by_cases enough : goal ≤ steps s.journal
    · have adds := Run.Extends.evaluate bodies
      exact ⟨fun call => .of_steps (fun fuel => adds fuel _) enough,
        fun state performed request => .of_steps
          (fun fuel => Run.Extends.callLoop (adds fuel) performed request) enough,
        fun state v => .of_steps (fun fuel => Run.Extends.forceValue (adds fuel) fuel v) enough⟩
    · have after : AdvancesAfter bodies settings goal s := fun t more => ih _ (by omega) t rfl
      exact ⟨dispatch_reaches undispatched finishing after,
        callLoop_reaches undispatched finishing after,
        forceValue_reaches undispatched finishing after⟩

end

end

end Machine

end Callable
