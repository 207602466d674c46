import Callable.Proofs.LoopLimit.Progress
import Mathlib.Tactic.Linarith

/-! What a limit of loops bounds. The limit is one of each loop, and an application that leaves
arguments over opens loops of its own. So the limit bounds the invocations of a run by the number
of such applications and of suspensions that are run, and the run comes to an answer exactly if
these are bounded. The bodies `again`, which leave an argument over in each application, use up any
fuel under any limit but zero. -/

namespace Callable

namespace Bodies

open Machine

variable {bodies : Bodies} {settings : Settings} {limit : UInt64}

theorem replies_ofBodies (undispatched : bodies.Undispatched) (label : Nat) (payload : Payload) :
    ((Conduct.ofBodies bodies undispatched).body label payload).Within (fun _ => True)
      Ending.Replies :=
  ((undispatched label payload).mono (fun _ _ => trivial) fun _ => id).bind fun _ _ => trivial

theorem apply_grown (undispatched : bodies.Undispatched) (settings : Settings) (call : Call)
    (fuel : Nat) (s : Store) :
    ∃ since, Run.journal (apply (evaluate bodies fuel) fuel settings call) s =
      since ++ s.journal := by
  have whole := run_truncates undispatched (.refl settings) (Nat.le_refl fuel) call
  obtain ⟨since, journal⟩ := whole.grows s
  exact ⟨since, journal.symm⟩

theorem invocations_le (undispatched : bodies.Undispatched)
    (limited : settings.loopLimit = some limit) (small : limit.toNat < 2 ^ 64 - 1) {call : Call}
    {fuel : Nat} {s : Store} {since : List Entry}
    (journal : Run.journal (apply (evaluate bodies fuel) fuel settings call) s =
      since ++ s.journal) :
    since.countP Entry.invokesClosure ≤ 1 + since.countP Entry.leavesOver +
      limit.toNat * (1 + 2 * since.countP Entry.leavesOver +
        since.countP Entry.runsSuspension) := by
  obtain ⟨hs, evaluates⟩ := (derivable_evaluate settings (.ofBodies bodies undispatched)
    fuel).apply fuel call s
  rw [Conduct.bodies_ofBodies bodies undispatched settings] at evaluates
  have bound := evaluates.balance_le limited small (replies_ofBodies undispatched)
    (Loop.keptTo_own settings call.state)
  change balance limit.toNat (Run.journal _ s) ≤ _ at bound
  rw [journal] at bound
  simp only [balance_append, Job.allowance, Loop.rest_own, balance_eq since] at bound
  have within : (since.countP Entry.invokesClosure : Int) ≤
      (1 + since.countP Entry.leavesOver + limit.toNat * (1 + 2 * since.countP Entry.leavesOver +
        since.countP Entry.runsSuspension) : Nat) := by
    push_cast
    linarith
  exact_mod_cast within

theorem apply_journal_mono (undispatched : bodies.Undispatched) (settings : Settings) (call : Call)
    {m n : Nat} (h : m ≤ n) (s : Store) :
    Run.journal (apply (evaluate bodies m) m settings call) s <:+
      Run.journal (apply (evaluate bodies n) n settings call) s :=
  (run_truncates undispatched (.refl settings) h call).journal s

/-- With a limit of loops, an application invokes no more closures than the applications that
leave arguments over and the suspensions that are run account for. It comes to an answer exactly
if there is a bound for their number. -/
theorem answers_iff_bounded (undispatched : bodies.Undispatched) (finishing : bodies.Finishing)
    (limited : settings.loopLimit = some limit) (small : limit.toNat < 2 ^ 64 - 1) (call : Call)
    (s : Store) :
    (∀ fuel, ∃ since, Run.journal (apply (evaluate bodies fuel) fuel settings call) s =
      since ++ s.journal ∧
      since.countP Entry.invokesClosure ≤ 1 + since.countP Entry.leavesOver +
        limit.toNat * (1 + 2 * since.countP Entry.leavesOver +
          since.countP Entry.runsSuspension)) ∧
    ((∃ reply t, Ends bodies (apply · · settings call) s (.ok reply t)) ↔
      ∃ bound, ∀ fuel since, Run.journal (apply (evaluate bodies fuel) fuel settings call) s =
        since ++ s.journal →
        since.countP Entry.leavesOver + since.countP Entry.runsSuspension ≤ bound) := by
  refine ⟨fun fuel => ?_, fun ⟨reply, t, enough, run⟩ => ?_, fun ⟨bound, bounded⟩ => ?_⟩
  · obtain ⟨since, journal⟩ := apply_grown undispatched settings call fuel s
    exact ⟨since, journal, invocations_le undispatched limited small journal⟩
  · obtain ⟨all, whole⟩ := apply_grown undispatched settings call enough s
    refine ⟨all.countP Entry.leavesOver + all.countP Entry.runsSuspension,
      fun fuel since journal => ?_⟩
    have same : Run.journal (apply (evaluate bodies (max enough fuel)) (max enough fuel) settings
        call) s = all ++ s.journal := by
      rw [← whole, Run.journal_of_eq (run _ (Nat.le_max_left _ _)),
        Run.journal_of_eq (run _ (Nat.le_refl _))]
    have part := apply_journal_mono undispatched settings call (Nat.le_max_right enough fuel) s
    rw [same, journal] at part
    have left_over := part.sublist.countP_le (p := Entry.leavesOver)
    have run := part.sublist.countP_le (p := Entry.runsSuspension)
    simp only [List.countP_append] at left_over run
    omega
  · -- more steps than the bound leaves room for
    let goal := steps s.journal + (2 + bound + limit.toNat * (1 + 2 * bound))
    have onward : AdvancesFrom bodies settings goal s :=
      fun t _ => advances undispatched finishing t
    rcases apply_reaches onward call with answered | ⟨enough, reached⟩
    · exact answered
    · obtain ⟨since, journal⟩ := apply_grown undispatched settings call enough s
      have few := bounded enough since journal
      have many := reached enough (Nat.le_refl _)
      have within := invocations_le undispatched limited small journal
      have loops := Nat.mul_le_mul_left limit.toNat (show 1 + 2 * since.countP Entry.leavesOver +
        since.countP Entry.runsSuspension ≤ 1 + 2 * bound by omega)
      rw [journal, steps_append] at many
      simp only [steps, goal] at many
      omega

def again (arguments : List Value) : Bodies := fun _ _ =>
  .ask (.newClosure ⟨"again", 0, none⟩ none (.parameterless .direct .withheld) [] [])
    fun f => .done (.error (.tailCall ⟨f, arguments⟩))

def oneMore (identity : Nat) (arguments : List Value) : Call :=
  ⟨⟨identity, ⟨"again", 0, none⟩, none, .parameterless .direct .withheld, [], []⟩, none, .unit,
    arguments⟩

theorem again_undispatched (arguments : List Value) : (again arguments).Undispatched :=
  fun _ _ => ⟨trivial, fun _ => trivial⟩

theorem again_finishing (arguments : List Value) : (again arguments).Finishing :=
  fun _ _ _ => ⟨_, _, .step ⟨0, fun _ _ => rfl⟩⟩

theorem again_answers : (again []).Undispatched ∧ (again []).Finishing ∧
    (2 : UInt64).toNat < 2 ^ 64 - 1 ∧ ∃ fuel t,
      apply (evaluate (again []) fuel) fuel { loopLimit := some 2 } (oneMore 0 []) {} =
        .ok (.error (.loopLimit 2)) t ∧
      t.journal.countP Entry.invokesClosure = 3 ∧ t.journal.countP Entry.leavesOver = 0 ∧
      t.journal.countP Entry.runsSuspension = 0 ∧
      t.journal.countP Entry.invokesClosure ≤ 1 + t.journal.countP Entry.leavesOver +
        (2 : UInt64).toNat * (1 + 2 * t.journal.countP Entry.leavesOver +
          t.journal.countP Entry.runsSuspension) := by
  have small : (2 : UInt64).toNat < 2 ^ 64 - 1 := by decide
  have limited : ({ loopLimit := some 2 } : Settings).loopLimit = some 2 := rfl
  obtain ⟨bounds, -⟩ := answers_iff_bounded (again_undispatched []) (again_finishing []) limited
    small (oneMore 0 []) {}
  obtain ⟨since, journal, within⟩ := bounds 9
  refine ⟨again_undispatched [], again_finishing [], small, 9, _, rfl, rfl, rfl, rfl, ?_⟩
  rw [List.append_nil] at journal
  rw [← journal] at within
  exact within

def onePerLoop : Settings := { loopLimit := some 1 }

def another (identity : Nat) : TailCall := ⟨(oneMore identity []).closure, [.integer 1]⟩

/-- An argument that is left over opens a loop in each application, and none of these loops comes
to its limit, unless that is zero. -/
theorem again_exhausts (within : settings.exceeded? 1 = none) (fuel identity : Nat) (s : Store) :
    ∃ t, evaluate (again [.integer 1]) fuel
      (.dispatch settings (requested .unit (another identity))) s = .error .exhausted t := by
  induction fuel generalizing identity s with
  | zero => exact ⟨s, rfl⟩
  | succ fuel ih =>
    have left : (requested .unit (another identity)).surplus ≠ [] := List.cons_ne_nil _ _
    cases fuel with
    | zero => exact ⟨_, (dispatch_of_excess rfl left).trans (Run.bind_of_error rfl)⟩
    | succ fuel =>
      let eval := evaluate (again [.integer 1]) (fuel + 1)
      let call := requested .unit (another identity)
      let next := another s.nextIdentity
      obtain ⟨u, asked⟩ : ∃ u, bodyReply eval (fuel + 1) settings call
          (s.log ((Policy.loops settings).announce call)) = .ok (.error (.tailCall next)) u :=
        ⟨_, rfl⟩
      obtain ⟨t, exhausted⟩ := ih s.nextIdentity (u.log [.event (.callLoop "again")])
      have nested : callLoop eval settings .unit (fuel + 1) 0 next =
          eval (.dispatch settings (requested .unit next)) >>=
            pursue eval fuel settings .unit 1 := callLoop_of_within within
      have settled : settle eval (fuel + 1) settings .unit (.error (.tailCall next)) u =
          .error .exhausted t := (congrFun nested _).trans (Run.bind_of_error exhausted)
      refine ⟨t, (dispatch_of_excess rfl left).trans ?_⟩
      exact Run.bind_of_error ((Run.bind_of_ok asked).trans settled)

theorem again_never_answers : (again [.integer 1]).Undispatched ∧
    (∀ label payload, (again [.integer 1] label payload).Within Request.Undispatched
      fun reply => ∃ request, reply = .error (.tailCall request) ∧
        ∀ v ∈ request.arguments, ∀ t, v ≠ .suspension t) ∧
    (again [.integer 1]).Finishing ∧
    (∀ v ∈ (oneMore 0 [.integer 1]).arguments, ∀ t, v ≠ .suspension t) ∧
    onePerLoop.loopLimit = some 1 ∧ (1 : UInt64).toNat < 2 ^ 64 - 1 ∧
    ∀ fuel, ∃ t, apply (evaluate (again [.integer 1]) fuel) fuel onePerLoop
      (oneMore 0 [.integer 1]) {} = .error .exhausted t := by
  have plain : ∀ v ∈ [Value.integer 1], ∀ t, v ≠ .suspension t := by simp
  refine ⟨again_undispatched _, fun label payload => ?_, again_finishing _, plain, rfl, by decide,
    fun fuel => ?_⟩
  · exact ⟨trivial, fun f => ⟨⟨f, [.integer 1]⟩, rfl, plain⟩⟩
  · have within : onePerLoop.exceeded? 1 = none := rfl
    obtain ⟨t, exhausted⟩ := again_exhausts within fuel 0 {}
    exact ⟨t, Run.bind_of_error exhausted⟩

end Bodies

end Callable
