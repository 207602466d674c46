import Callable.Proofs.Delivery
import Callable.Proofs.Truncation
import Mathlib.Algebra.Group.Nat.Defs

/-! Chains of requests. Each request that a loop performs is answered with the next one, until an
answer is none. A loop follows its chain to the end or, if the chain is longer than the limit,
just as far as the limit; the count of iterations may wrap around meanwhile. -/

namespace Callable

namespace Settings

variable {settings : Settings} {limit : UInt64}

theorem exceeded?_of_limit (set : settings.loopLimit = some limit)
    (bounded : limit.toNat < 2 ^ 64 - 1) {done : Nat} (le : done ≤ limit.toNat) :
    settings.exceeded? (.ofNat done + 1) = if done < limit.toNat then none else some limit := by
  have counted : (UInt64.ofNat done + 1).toNat = done + 1 := by
    rw [UInt64.toNat_add, UInt64.toNat_ofNat']
    simp only [UInt64.toNat_one]
    omega
  split
  · next less =>
    rw [Option.eq_none_iff_forall_ne_some]
    intro limit' exceeded
    obtain ⟨set', beyond⟩ := exceeded?_eq_some.mp exceeded
    cases set.symm.trans set'
    rw [UInt64.lt_iff_toNat_lt, counted] at beyond
    omega
  · next reached =>
    refine exceeded?_eq_some.mpr ⟨set, ?_⟩
    rw [UInt64.lt_iff_toNat_lt, counted]
    omega

/-- No iteration is beyond the limit: there is none, or it is the greatest 64-bit number. -/
def Unbounded (settings : Settings) : Prop :=
  settings.loopLimit = none ∨ ∃ limit, settings.loopLimit = some limit ∧ limit.toNat = 2 ^ 64 - 1

theorem Unbounded.exceeded? (unbounded : settings.Unbounded) (iteration : UInt64) :
    settings.exceeded? iteration = none := by
  rw [Option.eq_none_iff_forall_ne_some]
  intro limit exceeded
  obtain ⟨set, beyond⟩ := exceeded?_eq_some.mp exceeded
  rcases unbounded with unset | ⟨greatest, set', last⟩
  · cases unset.symm.trans set
  · cases set.symm.trans set'
    have bound := iteration.toNat_lt
    rw [UInt64.lt_iff_toNat_lt] at beyond
    omega

end Settings

namespace Machine

section

variable (bodies : Bodies) (settings : Settings) (state : Value)

def Performs (request : TailCall) (s : Store) (o : Outcome Reply) : Prop :=
  Ends bodies (fun eval _ => eval (.dispatch settings (requested state request))) s o

/-- So many requests, each of them performed and answered with the next one. -/
inductive Chain : Nat → TailCall → Store → TailCall → Store → Prop where
  | nil {request s} : Chain 0 request s request s
  | cons {n request s next t last u}
      (answered : Performs bodies settings state request s (.ok (.error (.tailCall next)) t))
      (rest : Chain n next t last u) :
      Chain (n + 1) request s last u

/-- So many requests, of which the last one is answered with no other one. -/
inductive Concludes : Nat → TailCall → Store → Outcome Reply → Prop where
  | last {request s o} (answered : Performs bodies settings state request s o)
      (resolved : o.Resolved) :
      Concludes 1 request s o
  | next {n request s next t o}
      (answered : Performs bodies settings state request s (.ok (.error (.tailCall next)) t))
      (rest : Concludes n next t o) :
      Concludes (n + 1) request s o

/-- How a loop that has performed so many requests ends when it comes to the next one. -/
inductive Loops : UInt64 → TailCall → Store → Outcome Reply → Prop where
  | stop {performed request s limit} (exceeded : settings.exceeded? (performed + 1) = some limit) :
      Loops performed request s (.ok (.error (.loopLimit limit)) s)
  | last {performed request s o} (within : settings.exceeded? (performed + 1) = none)
      (answered : Performs bodies settings state request s o) (resolved : o.Resolved) :
      Loops performed request s o
  | next {performed request s next t o} (within : settings.exceeded? (performed + 1) = none)
      (answered : Performs bodies settings state request s (.ok (.error (.tailCall next)) t))
      (rest : Loops (performed + 1) next t o) :
      Loops performed request s o

end

variable {bodies : Bodies} {settings : Settings} {state : Value} {performed : UInt64}
  {request : TailCall} {s t : Store} {o : Outcome Reply}

theorem performs_of_run (fuel : Nat)
    (run : evaluate bodies fuel (.dispatch settings (requested state request)) s = o)
    (finished : o.Finished) : Performs bodies settings state request s o :=
  .of_fuel (fun le => evaluate_le bodies le _) run finished

theorem loops_of_callLoop {fuel rounds : Nat}
    (run : callLoop (evaluate bodies fuel) settings state rounds performed request s = o)
    (finished : o.Finished) : Loops bodies settings state performed request s o := by
  -- on the rounds; the evaluator stays the same
  induction rounds generalizing performed request s with
  | zero =>
    subst run
    exact absurd finished (Outcome.not_finished_exhausted s)
  | succ rounds ih =>
    cases exceeded : settings.exceeded? (performed + 1) with
    | some limit =>
      rw [callLoop_of_exceeded exceeded] at run
      subst run
      exact .stop exceeded
    | none =>
      rw [callLoop_of_within exceeded] at run
      cases once : evaluate bodies fuel (.dispatch settings (requested state request)) s with
      | error h t =>
        obtain rfl := (Run.bind_of_error once).symm.trans run
        exact .last exceeded (performs_of_run fuel once finished) (Outcome.resolved_error h t)
      | ok reply t =>
        replace run := (Run.bind_of_ok once).symm.trans run
        rcases Settled.or_tailCall reply with settled | ⟨next, rfl⟩
        · rw [pursue_of_settled settled] at run
          subst run
          exact .last exceeded (performs_of_run fuel once trivial) (Outcome.resolved_ok settled t)
        · exact .next exceeded (performs_of_run fuel once trivial) (ih run)

theorem callLoop_of_loops (loops : Loops bodies settings state performed request s o)
    (finished : o.Finished) :
    Ends bodies (fun eval rounds => callLoop eval settings state rounds performed request) s o := by
  have le (performed) (request) {m n} (h : m ≤ n) := callLoop_le (evaluate_le bodies h) h settings
    state performed request
  induction loops with
  | @stop performed request s limit exceeded =>
    have once : callLoop (evaluate bodies 1) settings state 1 performed request s =
        .ok (.error (.loopLimit limit)) s := congrFun (callLoop_of_exceeded exceeded) s
    exact .of_fuel (le performed request) once finished
  | @last performed request s o within answered resolved =>
    obtain ⟨n, answered⟩ := answered
    have answered := answered (n + 1) (Nat.le_succ n)
    have once : callLoop (evaluate bodies (n + 1)) settings state (n + 1) performed request s =
        o := by
      rw [callLoop_of_within within]
      cases o with
      | error h t => exact Run.bind_of_error answered
      | ok reply t =>
        have settled : Settled reply := fun request e => resolved request t (e ▸ rfl)
        exact (Run.bind_of_ok answered).trans (congrFun (pursue_of_settled settled) t)
    exact .of_fuel (le performed request) once finished
  | @next performed request s next t o within answered rest ih =>
    obtain ⟨m, answered⟩ := answered
    obtain ⟨n, onward⟩ := ih finished
    -- what ends with `n` rounds ends so with the evaluator and the rounds that are left here
    have pursued : callLoop (evaluate bodies (max m n + 1)) settings state (max m n)
        (performed + 1) next t = o :=
      (callLoop_le (evaluate_le bodies (Nat.le_succ _)) (Nat.le_refl _) settings state _
        _).eq_of_finished (onward (max m n) (by omega)) finished
    have once : callLoop (evaluate bodies (max m n + 1)) settings state (max m n + 1) performed
        request s = o := by
      rw [callLoop_of_within within]
      exact (Run.bind_of_ok (answered (max m n + 1) (by omega))).trans pursued
    exact .of_fuel (le performed request) once finished

theorem callLoop_ends_iff (finished : o.Finished) :
    Ends bodies (fun eval rounds => callLoop eval settings state rounds performed request) s o ↔
      Loops bodies settings state performed request s o :=
  ⟨fun ⟨enough, run⟩ => loops_of_callLoop (run enough (Nat.le_refl _)) finished,
    fun loops => callLoop_of_loops loops finished⟩

namespace Loops

section

variable {limit : UInt64} (set : settings.loopLimit = some limit)
  (bounded : limit.toNat < 2 ^ 64 - 1)

include set bounded

theorem of_chain {done n : Nat} {beyond : TailCall}
    (chain : Chain bodies settings state n request s beyond t) (all : done + n = limit.toNat) :
    Loops bodies settings state (.ofNat done) request s (.ok (.error (.loopLimit limit)) t) := by
  have counted := Settings.exceeded?_of_limit set bounded (Nat.le.intro all)
  induction chain generalizing done with
  | nil =>
    rw [if_neg (by omega)] at counted
    exact .stop counted
  | cons answered _ ih =>
    rw [if_pos (by omega)] at counted
    refine .next counted answered ?_
    rw [← UInt64.ofNat_one, ← UInt64.ofNat_add]
    exact ih (by omega) (Settings.exceeded?_of_limit set bounded (by omega))

theorem of_concludes {done n : Nat} (concludes : Concludes bodies settings state n request s o)
    (le : done + n ≤ limit.toNat) :
    Loops bodies settings state (.ofNat done) request s o := by
  induction concludes generalizing done with
  | last answered resolved =>
    have within := Settings.exceeded?_of_limit set bounded (Nat.le_of_succ_le le)
    rw [if_pos (by omega)] at within
    exact .last within answered resolved
  | @next n _ _ _ _ _ answered _ ih =>
    have within := Settings.exceeded?_of_limit set bounded (Nat.le_of_add_right_le le)
    rw [if_pos (by omega)] at within
    refine .next within answered ?_
    rw [← UInt64.ofNat_one, ← UInt64.ofNat_add]
    exact ih (by omega)

theorem limited {done : Nat} (le : done ≤ limit.toNat)
    (loops : Loops bodies settings state (.ofNat done) request s o) :
    (∃ n, done + n ≤ limit.toNat ∧ Concludes bodies settings state n request s o) ∨
      ∃ n beyond t, done + n = limit.toNat ∧ Chain bodies settings state n request s beyond t ∧
        o = .ok (.error (.loopLimit limit)) t := by
  generalize reached : UInt64.ofNat done = performed at loops
  induction loops generalizing done with
  | @stop _ _ s _ exceeded =>
    rw [← reached, Settings.exceeded?_of_limit set bounded le] at exceeded
    split at exceeded
    · cases exceeded
    · cases exceeded
      exact .inr ⟨0, _, s, by omega, .nil, rfl⟩
  | last within answered resolved =>
    rw [← reached, Settings.exceeded?_of_limit set bounded le] at within
    split at within
    · exact .inl ⟨1, by omega, .last answered resolved⟩
    · cases within
  | next within answered _ ih =>
    rw [← reached, Settings.exceeded?_of_limit set bounded le] at within
    split at within
    · have counted : UInt64.ofNat (done + 1) = _ + 1 := reached ▸ UInt64.ofNat_add done 1
      rcases ih (by omega) counted with ⟨n, le, concludes⟩ | ⟨n, beyond, t, all, chain, rfl⟩
      · exact .inl ⟨n + 1, by omega, .next answered concludes⟩
      · exact .inr ⟨n + 1, beyond, t, by omega, .cons answered chain, rfl⟩
    · cases within

theorem limited_iff : Loops bodies settings state 0 request s o ↔
    (∃ n ≤ limit.toNat, Concludes bodies settings state n request s o) ∨
      ∃ beyond t, Chain bodies settings state limit.toNat request s beyond t ∧
        o = .ok (.error (.loopLimit limit)) t := by
  constructor
  · intro loops
    rcases limited set bounded (Nat.zero_le _) loops with ⟨n, le, concludes⟩ |
      ⟨n, beyond, t, all, chain, e⟩
    · exact .inl ⟨n, by omega, concludes⟩
    · obtain rfl : n = limit.toNat := by omega
      exact .inr ⟨beyond, t, chain, e⟩
  · rintro (⟨n, le, concludes⟩ | ⟨beyond, t, chain, rfl⟩)
    · exact of_concludes set bounded concludes (show 0 + n ≤ limit.toNat by omega)
    · exact of_chain set bounded chain (Nat.zero_add _)

end

theorem unbounded_iff (unbounded : settings.Unbounded) :
    Loops bodies settings state performed request s o ↔
      ∃ n, Concludes bodies settings state n request s o := by
  constructor
  · intro loops
    induction loops with
    | stop exceeded => cases (unbounded.exceeded? _).symm.trans exceeded
    | last _ answered resolved => exact ⟨1, .last answered resolved⟩
    | next _ answered _ ih =>
      obtain ⟨n, concludes⟩ := ih
      exact ⟨n + 1, .next answered concludes⟩
  · rintro ⟨n, concludes⟩
    induction concludes generalizing performed with
    | last answered resolved => exact .last (unbounded.exceeded? _) answered resolved
    | next answered _ ih => exact .next (unbounded.exceeded? _) answered ih

end Loops

section

variable (bodies settings) (state : Value) (request : TailCall)

/-- The parts of a run that come to a request and settle it in a loop of their own, up to the
store in which the loop begins. -/
inductive Enters : (Evaluator → Nat → Run Reply) → Store → Store → Prop where
  | apply {call s t} (own : call.state = state)
      (asked : Ends bodies (fun eval _ => eval (.dispatch settings call)) s
        (.ok (.error (.tailCall request)) t)) :
      Enters (apply · · settings call) s (t.log [.event (.callLoop request.closure.name)])
  | applyInFrame {call s t} (loop : call.closure.signature.strategy = .loop)
      (own : call.state = state)
      (asked : Ends bodies (fun eval _ => eval (.dispatch settings call)) s
        (.ok (.error (.tailCall request)) t)) :
      Enters (applyInFrame · · settings call) s (t.log [.event (.callLoop request.closure.name)])
  | force {x s t} (asked : Ends bodies (fun eval _ => resume eval x state) s
        (.ok (.error (.tailCall request)) t)) :
      Enters (force · · settings x state) s (t.log [.event (.callLoop request.closure.name)])
  | surplus {call payload s t} (left : call.surplus ≠ []) (own : call.state = state)
      (asked : Ends bodies (fun eval _ => eval (.invoke (.application call) payload)) s
        (.ok (.error (.tailCall request)) t)) :
      Enters (finishedReply · · settings call payload) s
        (t.log [.event (.callLoop request.closure.name)])

end

theorem Enters.ends_iff {x : Evaluator → Nat → Run Reply}
    (enters : Enters bodies settings state request x s t) (finished : o.Finished) :
    Ends bodies x s o ↔ Loops bodies settings state 0 request t o := by
  rw [← callLoop_ends_iff finished]
  cases enters with
  | apply own asked =>
    subst own
    exact asked.bind_iff
  | applyInFrame loop own asked =>
    subst own
    simp only [applyInFrame_of_loop loop]
    exact asked.bind_iff
  | force asked => exact asked.bind_iff
  | @surplus call _ _ _ left own asked =>
    subst own
    have filled : call.leftOver.isEmpty = false := List.isEmpty_eq_false_iff.mpr left
    simp only [finishedReply, filled, Bool.false_eq_true, if_false]
    exact asked.bind_iff

end Machine

namespace Bodies

open Machine

/-- A loop with a limit below the greatest 64-bit number ends as the chain of its requests if that
is no longer than the limit, and otherwise reports the limit after as many requests. Any other loop
ends as the chain of its requests, however long. -/
theorem loop_exact {bodies : Bodies} {settings : Settings} {state : Value} {request : TailCall}
    {x : Evaluator → Nat → Run Reply} {s t : Store} {o : Outcome Reply}
    (enters : Enters bodies settings state request x s t) (finished : o.Finished) :
    (∀ limit, settings.loopLimit = some limit → limit.toNat < 2 ^ 64 - 1 →
      (Ends bodies x s o ↔ (∃ n ≤ limit.toNat, Concludes bodies settings state n request t o) ∨
        ∃ beyond u, Chain bodies settings state limit.toNat request t beyond u ∧
          o = .ok (.error (.loopLimit limit)) u)) ∧
    (settings.Unbounded → (Ends bodies x s o ↔
      ∃ n, Concludes bodies settings state n request t o)) := by
  rw [enters.ends_iff finished]
  exact ⟨fun limit set bounded => Loops.limited_iff set bounded, Loops.unbounded_iff⟩

theorem descent_exact : ∃ request beyond t u,
    Enters descending { loopLimit := some 1 } .unit request
      (apply · · { loopLimit := some 1 } (descent 2)) {} t ∧
    Chain descending { loopLimit := some 1 } .unit 1 request t beyond u ∧
    Ends descending (apply · · { loopLimit := some 1 } (descent 2)) {}
      (.ok (.error (.loopLimit 1)) u) := by
  have asked : Performs descending { loopLimit := some 1 } .unit ⟨(descent 2).closure, []⟩ {}
      (.ok (.error (.tailCall _)) _) := performs_of_run 3 rfl trivial
  obtain ⟨request, t, enters, beyond, u, chain⟩ : ∃ request t,
      Enters descending { loopLimit := some 1 } .unit request
        (apply · · { loopLimit := some 1 } (descent 2)) {} t ∧
      ∃ beyond u, Chain descending { loopLimit := some 1 } .unit 1 request t beyond u :=
    ⟨_, _, .apply rfl asked, _, _, .cons (performs_of_run 3 rfl trivial) .nil⟩
  have ends := ((loop_exact enters (Outcome.finished_ok _ u)).1 1 rfl (by decide)).mpr
    (.inr ⟨beyond, u, chain, rfl⟩)
  exact ⟨request, beyond, t, u, enters, chain, ends⟩

end Bodies

end Callable
