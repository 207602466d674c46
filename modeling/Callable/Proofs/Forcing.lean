import Callable.Proofs.LoopLimit.Chain

/-! Forcing of arguments. What an application forces is told here by rules: which suspensions are
met, in which order, and what comes of it. Runs of the machine and derivations by these rules agree,
and a derivation settles all that is forced and whatever that leaves in the store. -/

namespace Callable

namespace Ends

variable {bodies : Bodies} {s : Store} {task : Task} {o : Outcome Reply}

theorem step_iff : Ends bodies (fun eval _ => eval task) s o ↔
    Ends bodies (fun eval rounds => Machine.step eval rounds bodies task) s o :=
  ⟨fun ⟨enough, run⟩ => ⟨enough, fun fuel more => run (fuel + 1) (Nat.le_succ_of_le more)⟩, .step⟩

end Ends

def Outcome.cons (w : Value) : Outcome (Except Fault (List Value)) →
    Outcome (Except Fault (List Value))
  | .ok forced t => .ok (forced.map (w :: ·)) t
  | .error h t => .error h t

namespace Outcome

variable {w : Value} {o : Outcome (Except Fault (List Value))}

@[simp] theorem store_cons : (o.cons w).store = o.store := by cases o <;> rfl

theorem finished_cons : (o.cons w).Finished ↔ o.Finished := by
  cases o with
  | ok => exact .rfl
  | error h => cases h <;> exact .rfl

theorem finished_halt {α β : Type} {h : Halt} {t : Store}
    (finished : Finished (.error h t : Outcome α)) : Finished (.error h t : Outcome β) := by
  cases h with
  | defect => trivial
  | exhausted => exact finished

theorem cons_eq_ok {ws : List Value} {t : Store} (h : o.cons w = .ok (.ok ws) t) :
    ∃ rest, o = .ok (.ok rest) t ∧ ws = w :: rest := by
  match o with
  | .ok (.ok rest) _ => cases h; exact ⟨rest, rfl, rfl⟩
  | .ok (.error _) _ => cases h
  | .error _ _ => cases h

end Outcome

namespace Machine

section

variable (bodies : Bodies) (settings : Settings) (state : Value)

/-- How it ends to force a suspension: its body is invoked, once, and a tail call that it asks for
is performed in a loop. -/
inductive Wakes (x : Suspension Value) (s : Store) : Outcome Reply → Prop where
  | resolved {o} (invoked : Ends bodies (fun eval _ => resume eval x state) s o)
      (resolved : o.Resolved) : Wakes x s o
  | loop {request t o}
      (invoked : Ends bodies (fun eval _ => resume eval x state) s
        (.ok (.error (.tailCall request)) t))
      (loops : Loops bodies settings state 0 request
        (t.log [.event (.callLoop request.closure.name)]) o) : Wakes x s o

/-- What is met from a value on: suspensions, each of them yielded by the one before, and then the
first value that is none; or what stops one of them. -/
inductive Unwinds : Value → Store → List (Suspension Value) → Outcome Reply → Prop where
  | value {v s} (plain : ∀ x, v ≠ .suspension x) : Unwinds v s [] (.ok (.ok v) s)
  | next {x s v t xs o} (woken : Wakes bodies settings state x s (.ok (.ok v) t))
      (rest : Unwinds v t xs o) : Unwinds (.suspension x) s (x :: xs) o
  | stop {x s o} (woken : Wakes bodies settings state x s o) (stops : o.Stops) :
    Unwinds (.suspension x) s [x] o

/-- The suspensions that are forced for arguments, in this order, and what the arguments come to.
Nothing is forced for a suspended parameter, nor for any other after one that is stopped. -/
inductive Forces : List Parameter → List Value → Store → List (Suspension Value) →
    Outcome (Except Fault (List Value)) → Prop where
  | done {ps vs s} (all : ps = [] ∨ vs = []) : Forces ps vs s [] (.ok (.ok vs) s)
  | kept {p ps v vs s xs o} (suspended : p.isSuspended = true) (rest : Forces ps vs s xs o) :
    Forces (p :: ps) (v :: vs) s xs (o.cons v)
  | executed {p ps v vs s xs w t ys o} (executed : p.isSuspended = false)
      (first : Unwinds bodies settings state v s xs (.ok (.ok w) t))
      (rest : Forces ps vs t ys o) : Forces (p :: ps) (v :: vs) s (xs ++ ys) (o.cons w)
  | fault {p ps v vs s xs fault t} (executed : p.isSuspended = false)
      (first : Unwinds bodies settings state v s xs (.ok (.error fault) t)) :
    Forces (p :: ps) (v :: vs) s xs (.ok (.error fault) t)
  | halt {p ps v vs s xs h t} (executed : p.isSuspended = false)
      (first : Unwinds bodies settings state v s xs (.error h t)) :
    Forces (p :: ps) (v :: vs) s xs (.error h t)

/-- What forcing makes of arguments: what it may not touch is as it was, and what it has forced is no
suspension. -/
structure Prepared (ps : List Parameter) (vs ws : List Value) : Prop extends Spared ps vs ws where
  executed : ∀ {i : Nat} {p : Parameter} {w : Value}, ps[i]? = some p → ws[i]? = some w →
    p.isSuspended = false → ∀ x, w ≠ .suspension x

/-- Stores each of which is left by forcing the next suspension in the store before it. -/
inductive InTurn : Store → List (Suspension Value) → Store → Prop where
  | nil {s} : InTurn s [] s
  | cons {x s o xs t} (woken : Wakes bodies settings state x s o)
      (entered : .invoked (.suspension x) (.ofSuspension x state) :: s.journal <:+ o.store.journal)
      (rest : InTurn o.store xs t) : InTurn s (x :: xs) t

end

theorem Prepared.cons {ps : List Parameter} {vs ws : List Value} {p : Parameter} {v w : Value}
    (spared : p.isSuspended = true ∨ (∀ x, v ≠ .suspension x) → w = v)
    (executed : p.isSuspended = false → ∀ x, w ≠ .suspension x) (rest : Prepared ps vs ws) :
    Prepared (p :: ps) (v :: vs) (w :: ws) where
  toSpared := .cons spared rest.toSpared
  executed {i q u} declared filled := by
    cases i with
    | zero =>
      cases declared
      cases filled
      exact executed
    | succ i => exact rest.executed declared filled

section

variable {bodies : Bodies} {settings : Settings} {state : Value} {s t : Store}

section

variable {performed : UInt64} {request : TailCall} {o o' : Outcome Reply}

theorem Loops.unique (h : Loops bodies settings state performed request s o)
    (h' : Loops bodies settings state performed request s o') : o = o' := by
  induction h with
  | stop exceeded =>
    cases h' with
    | stop exceeded' => cases exceeded.symm.trans exceeded'; rfl
    | last within | next within => cases exceeded.symm.trans within
  | last within answered resolved =>
    cases h' with
    | stop exceeded => cases within.symm.trans exceeded
    | last _ answered' => exact answered.unique answered'
    | next _ answered' => exact absurd (answered.unique answered') (resolved _ _)
  | next within answered _ ih =>
    cases h' with
    | stop exceeded => cases within.symm.trans exceeded
    | last _ answered' resolved => exact absurd (answered'.unique answered) (resolved _ _)
    | next _ answered' rest =>
      cases answered.unique answered'
      exact ih rest

theorem Loops.grows (h : Loops bodies settings state performed request s o) :
    s.journal <:+ o.store.journal := by
  have performs {request s o} (h : Performs bodies settings state request s o) :
      s.journal <:+ o.store.journal := by
    obtain ⟨enough, run⟩ := h
    exact (Run.Extends.evaluate bodies enough _).of_eq (run enough (Nat.le_refl _))
  induction h with
  | stop => exact List.suffix_refl _
  | last _ answered => exact performs answered
  | next _ answered _ ih => exact (performs answered).trans ih

end

namespace Wakes

variable {x : Suspension Value} {o o' : Outcome Reply}

theorem unique (h : Wakes bodies settings state x s o) (h' : Wakes bodies settings state x s o') :
    o = o' := by
  cases h with
  | resolved invoked resolved =>
    cases h' with
    | resolved invoked' => exact invoked.unique invoked'
    | loop invoked' => exact absurd (invoked.unique invoked') (resolved _ _)
  | loop invoked loops =>
    cases h' with
    | resolved invoked' resolved => exact absurd (invoked'.unique invoked) (resolved _ _)
    | loop invoked' loops' =>
      cases invoked.unique invoked'
      exact loops.unique loops'

theorem entered (undispatched : bodies.Undispatched) (h : Wakes bodies settings state x s o) :
    .invoked (.suspension x) (.ofSuspension x state) :: s.journal <:+ o.store.journal := by
  have invokes {o} (h : Ends bodies (fun eval _ => resume eval x state) s o) :
      .invoked (.suspension x) (.ofSuspension x state) :: s.journal <:+ o.store.journal := by
    obtain ⟨enough, run⟩ := Ends.step_iff.mp h
    have keeps := (Ledger.lenient bodies settings).keeps_evaluate undispatched enough
    have performed : (Program.perform (answer (evaluate bodies enough) enough)
        (bodies x.target.body (.ofSuspension x state))).Extends := fun s =>
      Run.bare_journal _ s ▸ (keeps.perform (undispatched _ _) s).suffix
    exact Run.Extends.of_eq performed (run enough (Nat.le_refl _))
  cases h with
  | resolved invoked => exact invokes invoked
  | loop invoked loops =>
    exact (invokes invoked).trans ((Store.suffix_log _ _).trans loops.grows)

end Wakes

theorem force_ends_iff {x : Suspension Value} {o : Outcome Reply} (finished : o.Finished) :
    Ends bodies (force · · settings x state) s o ↔ Wakes bodies settings state x s o := by
  constructor
  · rintro ⟨enough, run⟩
    have whole := run enough (Nat.le_refl _)
    have ends {o' : Outcome Reply} (once : resume (evaluate bodies enough) x state s = o')
        (done : o'.Finished) : Ends bodies (fun eval _ => resume eval x state) s o' :=
      .of_fuel (fun le => evaluate_le _ le _) once done
    cases once : resume (evaluate bodies enough) x state s with
    | error h t =>
      obtain rfl := (Run.bind_of_error once).symm.trans whole
      exact .resolved (ends once finished) (Outcome.resolved_error h t)
    | ok reply t =>
      have invoked := ends once trivial
      rcases Settled.or_tailCall reply with settled | ⟨request, rfl⟩
      · have settles := (Run.bind_of_ok once).symm.trans whole
        rw [settle_of_settled settled] at settles
        subst settles
        exact .resolved invoked (Outcome.resolved_ok settled t)
      · exact .loop invoked (((Enters.force invoked).ends_iff finished).mp ⟨enough, run⟩)
  · rintro (⟨invoked, resolved⟩ | ⟨invoked, loops⟩)
    · cases o with
      | error h t => exact invoked.bind_error
      | ok reply t =>
        have settled : Settled reply := fun request e => resolved request t (e ▸ rfl)
        exact invoked.bind ⟨0, fun _ _ => congrFun (settle_of_settled settled) t⟩
    · exact ((Enters.force invoked).ends_iff finished).mpr loops

namespace Unwinds

variable {v : Value} {xs xs' : List (Suspension Value)} {o o' : Outcome Reply}

theorem unique (h : Unwinds bodies settings state v s xs o)
    (h' : Unwinds bodies settings state v s xs' o') : xs = xs' ∧ o = o' := by
  induction h generalizing xs' with
  | value plain =>
    cases h' with
    | value => exact ⟨rfl, rfl⟩
    | next | stop => exact absurd rfl (plain _)
  | next woken _ ih =>
    cases h' with
    | value plain => exact absurd rfl (plain _)
    | next woken' rest =>
      cases woken.unique woken'
      obtain ⟨rfl, rfl⟩ := ih rest
      exact ⟨rfl, rfl⟩
    | stop woken' stops =>
      cases woken.unique woken'
      exact stops.elim
  | stop woken stops =>
    cases h' with
    | value plain => exact absurd rfl (plain _)
    | next woken' =>
      cases woken.unique woken'
      exact stops.elim
    | stop woken' => exact ⟨rfl, woken.unique woken'⟩

theorem plain {w : Value} (h : Unwinds bodies settings state v s xs (.ok (.ok w) t)) :
    ∀ x, w ≠ .suspension x := by
  generalize ended : (.ok (.ok w) t : Outcome Reply) = o at h
  induction h with
  | value plain =>
    cases ended
    exact plain
  | next _ _ ih => exact ih ended
  | stop _ stops =>
    subst ended
    exact stops.elim

theorem same {w : Value} (plain : ∀ x, v ≠ .suspension x)
    (h : Unwinds bodies settings state v s xs (.ok (.ok w) t)) : w = v := by
  cases h with
  | value => rfl
  | next | stop => exact absurd rfl (plain _)

theorem inTurn (undispatched : bodies.Undispatched)
    (h : Unwinds bodies settings state v s xs o) : InTurn bodies settings state s xs o.store := by
  induction h with
  | value => exact .nil
  | next woken _ ih => exact .cons woken (woken.entered undispatched) ih
  | stop woken => exact .cons woken (woken.entered undispatched) .nil

end Unwinds

theorem unwinds_of_forceValue {fuel steps : Nat} {v : Value} {o : Outcome Reply}
    (run : forceValue (evaluate bodies fuel) fuel settings state steps v s = o)
    (finished : o.Finished) : ∃ xs, Unwinds bodies settings state v s xs o := by
  -- on the steps that are left; the evaluator stays the same
  induction steps generalizing v s with
  | zero =>
    cases v with
    | suspension x =>
      subst run
      exact absurd finished (Outcome.not_finished_exhausted s)
    | _ =>
      subst run
      exact ⟨[], .value nofun⟩
  | succ steps ih =>
    cases v with
    | suspension x =>
      have wakes {o' : Outcome Reply}
          (once : force (evaluate bodies fuel) fuel settings x state s = o')
          (done : o'.Finished) : Wakes bodies settings state x s o' :=
        (force_ends_iff done).mp
          (.of_fuel (fun le => force_le (evaluate_le _ le) le _ _ _) once done)
      cases once : force (evaluate bodies fuel) fuel settings x state s with
      | error h t =>
        obtain rfl := (Run.bind_of_error once).symm.trans run
        exact ⟨[x], .stop (wakes once finished) trivial⟩
      | ok reply t =>
        have onward := (Run.bind_of_ok once).symm.trans run
        cases reply with
        | ok w =>
          obtain ⟨xs, rest⟩ := ih onward
          exact ⟨x :: xs, .next (wakes once trivial) rest⟩
        | error fault =>
          subst onward
          exact ⟨[x], .stop (wakes once trivial) trivial⟩
    | _ =>
      subst run
      exact ⟨[], .value nofun⟩

theorem forceValue_ends_iff {v : Value} {o : Outcome Reply} (finished : o.Finished) :
    Ends bodies (fun eval rounds => forceValue eval rounds settings state rounds v) s o ↔
      ∃ xs, Unwinds bodies settings state v s xs o := by
  constructor
  · rintro ⟨enough, run⟩
    exact unwinds_of_forceValue (run enough (Nat.le_refl _)) finished
  · rintro ⟨xs, unwinds⟩
    induction unwinds with
    | value plain => exact ⟨0, fun _ _ => congrFun (forceValue_of_plain plain) _⟩
    | next woken _ ih =>
      have first := (force_ends_iff (Outcome.finished_ok _ _)).mpr woken
      exact forceValue_ends first (ih finished) finished
    | stop woken stops =>
      exact forceValue_stops ((force_ends_iff finished).mpr woken) stops finished

theorem InTurn.append {u : Store} {xs ys : List (Suspension Value)}
    (h : InTurn bodies settings state s xs t) (h' : InTurn bodies settings state t ys u) :
    InTurn bodies settings state s (xs ++ ys) u := by
  induction h with
  | nil => exact h'
  | cons woken entered _ ih => exact .cons woken entered (ih h')

namespace Forces

variable {ps : List Parameter} {vs : List Value} {xs xs' : List (Suspension Value)}
  {o o' : Outcome (Except Fault (List Value))}

theorem unique (h : Forces bodies settings state ps vs s xs o)
    (h' : Forces bodies settings state ps vs s xs' o') : xs = xs' ∧ o = o' := by
  induction h generalizing xs' o' with
  | done all =>
    cases h' with
    | done => exact ⟨rfl, rfl⟩
    | _ => simp at all
  | kept suspended _ ih =>
    cases h' with
    | done all => simp at all
    | kept _ rest =>
      obtain ⟨rfl, rfl⟩ := ih rest
      exact ⟨rfl, rfl⟩
    | executed executed | fault executed | halt executed =>
      cases suspended.symm.trans executed
  | executed executed first _ ih =>
    cases h' with
    | done all => simp at all
    | kept suspended => cases suspended.symm.trans executed
    | executed _ first' rest =>
      obtain ⟨rfl, same⟩ := first.unique first'
      cases same
      obtain ⟨rfl, rfl⟩ := ih rest
      exact ⟨rfl, rfl⟩
    | fault _ first' | halt _ first' => cases (first.unique first').2
  | fault executed first =>
    cases h' with
    | done all => simp at all
    | kept suspended => cases suspended.symm.trans executed
    | executed _ first' | halt _ first' => cases (first.unique first').2
    | fault _ first' =>
      obtain ⟨rfl, same⟩ := first.unique first'
      cases same
      exact ⟨rfl, rfl⟩
  | halt executed first =>
    cases h' with
    | done all => simp at all
    | kept suspended => cases suspended.symm.trans executed
    | executed _ first' | fault _ first' => cases (first.unique first').2
    | halt _ first' =>
      obtain ⟨rfl, same⟩ := first.unique first'
      cases same
      exact ⟨rfl, rfl⟩

theorem inTurn (undispatched : bodies.Undispatched)
    (h : Forces bodies settings state ps vs s xs o) :
    InTurn bodies settings state s xs o.store := by
  induction h with
  | done => exact .nil
  | kept _ _ ih =>
    rw [Outcome.store_cons]
    exact ih
  | executed _ first _ ih =>
    rw [Outcome.store_cons]
    exact (first.inTurn undispatched).append ih
  | fault _ first | halt _ first => exact first.inTurn undispatched

end Forces

section

variable {eval : Evaluator} {rounds : Nat} {p : Parameter} {ps : List Parameter} {v : Value}
  {vs : List Value}

theorem forceArgument_of_suspended (suspended : p.isSuspended = true) :
    forceArgument eval rounds settings state p v = pure (.ok v) := by
  simp [forceArgument, suspended]

theorem forceArguments_of_done (all : ps = [] ∨ vs = []) :
    forceArguments eval rounds settings state ps vs = pure (.ok vs) := by
  rcases all with rfl | rfl
  · rfl
  · cases ps <;> rfl

theorem forceArguments_cons_of_ok {w : Value}
    (first : forceArgument eval rounds settings state p v s = .ok (.ok w) t) :
    forceArguments eval rounds settings state (p :: ps) (v :: vs) s =
      Outcome.cons w (forceArguments eval rounds settings state ps vs t) := by
  refine (Run.bind_of_ok first).trans ?_
  cases rest : forceArguments eval rounds settings state ps vs t with
  | error h u => exact Run.bind_of_error rest
  | ok forced u =>
    cases forced with
    | error fault => exact Run.bind_of_ok rest
    | ok ws => exact Run.bind_of_ok rest

theorem forceArguments_cons_of_fault {fault : Fault}
    (first : forceArgument eval rounds settings state p v s = .ok (.error fault) t) :
    forceArguments eval rounds settings state (p :: ps) (v :: vs) s = .ok (.error fault) t :=
  Run.bind_of_ok first

theorem forceArguments_cons_of_halt {h : Halt}
    (first : forceArgument eval rounds settings state p v s = .error h t) :
    forceArguments eval rounds settings state (p :: ps) (v :: vs) s = .error h t :=
  Run.bind_of_error first

end

section

variable {ps : List Parameter} {vs : List Value} {xs : List (Suspension Value)}
  {o : Outcome (Except Fault (List Value))}

theorem forces_of_forceArguments {fuel : Nat}
    (run : forceArguments (evaluate bodies fuel) fuel settings state ps vs s = o)
    (finished : o.Finished) : ∃ xs, Forces bodies settings state ps vs s xs o := by
  induction ps generalizing vs s o with
  | nil =>
    subst run
    exact ⟨[], .done (.inl rfl)⟩
  | cons p ps ih =>
    cases vs with
    | nil =>
      subst run
      exact ⟨[], .done (.inr rfl)⟩
    | cons v vs =>
      cases suspended : p.isSuspended with
      | true =>
        have kept : forceArgument (evaluate bodies fuel) fuel settings state p v s =
            .ok (.ok v) s := congrFun (forceArgument_of_suspended suspended) s
        rw [forceArguments_cons_of_ok kept] at run
        subst run
        obtain ⟨xs, rest⟩ := ih rfl (Outcome.finished_cons.mp finished)
        exact ⟨xs, .kept suspended rest⟩
      | false =>
        have unwinds {o' : Outcome Reply} (once : forceArgument (evaluate bodies fuel) fuel
            settings state p v s = o') (done : o'.Finished) :
            ∃ xs, Unwinds bodies settings state v s xs o' := by
          rw [forceArgument_of_executed suspended] at once
          exact unwinds_of_forceValue once done
        cases once : forceArgument (evaluate bodies fuel) fuel settings state p v s with
        | error h t =>
          rw [forceArguments_cons_of_halt once] at run
          subst run
          obtain ⟨xs, first⟩ := unwinds once (Outcome.finished_halt finished)
          exact ⟨xs, .halt suspended first⟩
        | ok reply t =>
          obtain ⟨xs, first⟩ := unwinds once (Outcome.finished_ok _ _)
          cases reply with
          | error fault =>
            rw [forceArguments_cons_of_fault once] at run
            subst run
            exact ⟨xs, .fault suspended first⟩
          | ok w =>
            rw [forceArguments_cons_of_ok once] at run
            subst run
            obtain ⟨ys, rest⟩ := ih rfl (Outcome.finished_cons.mp finished)
            exact ⟨xs ++ ys, .executed suspended first rest⟩

theorem Forces.ends (h : Forces bodies settings state ps vs s xs o) (finished : o.Finished) :
    Ends bodies (fun eval rounds => forceArguments eval rounds settings state ps vs) s o := by
  have first {p : Parameter} {v : Value} {s : Store} {xs} {o : Outcome Reply}
      (executed : p.isSuspended = false) (h : Unwinds bodies settings state v s xs o)
      (done : o.Finished) :
      Ends bodies (fun eval rounds => forceArgument eval rounds settings state p v) s o := by
    simp only [forceArgument_of_executed executed]
    exact (forceValue_ends_iff done).mpr ⟨xs, h⟩
  induction h with
  | done all => exact ⟨0, fun _ _ => congrFun (forceArguments_of_done all) _⟩
  | kept suspended _ ih =>
    obtain ⟨n, rest⟩ := ih (Outcome.finished_cons.mp finished)
    refine ⟨n, fun fuel more => ?_⟩
    exact (forceArguments_cons_of_ok (congrFun (forceArgument_of_suspended suspended) _)).trans
      (congrArg (Outcome.cons _) (rest fuel more))
  | executed executed unwinds _ ih =>
    obtain ⟨m, first⟩ := first executed unwinds (Outcome.finished_ok _ _)
    obtain ⟨n, rest⟩ := ih (Outcome.finished_cons.mp finished)
    refine ⟨max m n, fun fuel more => ?_⟩
    exact (forceArguments_cons_of_ok (first fuel (by omega))).trans
      (congrArg (Outcome.cons _) (rest fuel (by omega)))
  | fault executed unwinds =>
    obtain ⟨m, first⟩ := first executed unwinds (Outcome.finished_ok _ _)
    exact ⟨m, fun fuel more => forceArguments_cons_of_fault (first fuel more)⟩
  | halt executed unwinds =>
    obtain ⟨m, first⟩ := first executed unwinds (Outcome.finished_halt finished)
    exact ⟨m, fun fuel more => forceArguments_cons_of_halt (first fuel more)⟩

theorem Forces.prepared {ws : List Value}
    (h : Forces bodies settings state ps vs s xs (.ok (.ok ws) t)) : Prepared ps vs ws := by
  generalize ended : (.ok (.ok ws) t : Outcome (Except Fault (List Value))) = o at h
  induction h generalizing ws with
  | @done ps vs s all =>
    cases ended
    refine ⟨.refl _ _, fun declared filled => ?_⟩
    rcases all with rfl | rfl
    · cases declared
    · cases filled
  | kept suspended _ ih =>
    obtain ⟨rest, inner, rfl⟩ := Outcome.cons_eq_ok ended.symm
    exact .cons (fun _ => rfl) (fun executed => nomatch suspended.symm.trans executed)
      (ih inner.symm)
  | executed executed first _ ih =>
    obtain ⟨rest, inner, rfl⟩ := Outcome.cons_eq_ok ended.symm
    refine .cons (fun spared => ?_) (fun _ => first.plain) (ih inner.symm)
    exact first.same (spared.resolve_left (Bool.eq_false_iff.mp executed))
  | fault | halt => cases ended

end

end

section

variable {eval : Evaluator} {rounds : Nat} {settings : Settings} {call : Call} {s t : Store}
  (saturated : call.isSaturated = true)

include saturated

theorem dispatch_of_halted {h : Halt}
    (forced : forceArguments eval rounds settings call.state call.closure.signature.parameters
      call.positional (s.log ((Policy.loops settings).announce call)) = .error h t) :
    dispatch eval rounds settings call s = .error h t := by
  have body : bodyReply eval rounds settings call (s.log ((Policy.loops settings).announce call)) =
      .error h t := forceOnward_of_halt forced
  exact (dispatch_of_saturated saturated).trans (Run.bind_of_error body)

theorem dispatch_of_faulted {fault : Fault}
    (forced : forceArguments eval rounds settings call.state call.closure.signature.parameters
      call.positional (s.log ((Policy.loops settings).announce call)) = .ok (.error fault) t) :
    dispatch eval rounds settings call s = .ok (.error fault) t := by
  have body : bodyReply eval rounds settings call (s.log ((Policy.loops settings).announce call)) =
      .ok (.error fault) t := forceOnward_of_fault forced
  have settled : Settled (.error fault : Reply) := (forceArguments_settled forced).of_error
  refine (dispatch_of_saturated saturated).trans ((Run.bind_of_ok body).trans ?_)
  rw [finish_of_fault settled]
  rfl

end

section

variable (bodies : Bodies) (settings : Settings) (call : Call)

abbrev ForcesFor (s : Store) : List (Suspension Value) → Outcome (Except Fault (List Value)) → Prop :=
  Forces bodies settings call.state call.closure.signature.parameters call.positional
    (s.log ((Policy.loops settings).announce call))

/-- How an application goes on with what its arguments have come to. What stops them is its outcome
there and then; otherwise the body is invoked with them, and what finishes the application applies
the surplus as it was supplied. -/
inductive Proceeds : Outcome (Except Fault (List Value)) → Outcome Reply → Prop where
  | halt {h t} : Proceeds (.error h t) (.error h t)
  | fault {fault t} : Proceeds (.ok (.error fault) t) (.ok (.error fault) t)
  | body {ws t caller u o} (presented : presentedCaller call t = .ok caller u)
      (ends : Ends bodies (fun eval rounds => eval (.invoke (.application call)
        (.ofClosure call.closure caller call.state ws)) >>= finish eval rounds settings call) u o) :
      Proceeds (.ok (.ok ws) t) o

end

section

variable {bodies : Bodies} {settings : Settings} {call : Call} {s : Store} {o : Outcome Reply}

theorem ForcesFor.proceeds {xs : List (Suspension Value)}
    {forced : Outcome (Except Fault (List Value))} (saturated : call.isSaturated = true)
    (forces : ForcesFor bodies settings call s xs forced)
    (proceeds : Proceeds bodies settings call forced o) (finished : o.Finished) :
    Ends bodies (fun eval _ => eval (.dispatch settings call)) s o := by
  refine .step ?_
  cases proceeds with
  | halt =>
    obtain ⟨m, forced⟩ := forces.ends (Outcome.finished_halt finished)
    exact ⟨m, fun fuel more => dispatch_of_halted saturated (forced fuel more)⟩
  | fault =>
    obtain ⟨m, forced⟩ := forces.ends (Outcome.finished_ok _ _)
    exact ⟨m, fun fuel more => dispatch_of_faulted saturated (forced fuel more)⟩
  | body presented ends =>
    obtain ⟨m, forced⟩ := forces.ends (Outcome.finished_ok _ _)
    obtain ⟨n, onward⟩ := ends
    refine ⟨max m n, fun fuel more => ?_⟩
    exact (dispatch_of_presented saturated (forced fuel (by omega)) presented).trans
      (onward fuel (by omega))

theorem dispatch_ends_iff (saturated : call.isSaturated = true) (finished : o.Finished) :
    Ends bodies (fun eval _ => eval (.dispatch settings call)) s o ↔
      ∃ xs forced, ForcesFor bodies settings call s xs forced ∧
        Proceeds bodies settings call forced o := by
  refine ⟨fun ends => ?_, fun ⟨_, _, forces, proceeds⟩ => forces.proceeds saturated proceeds finished⟩
  obtain ⟨enough, run⟩ := Ends.step_iff.mp ends
  have whole := run enough (Nat.le_refl _)
  cases forced : forceArguments (evaluate bodies enough) enough settings call.state
      call.closure.signature.parameters call.positional
      (s.log ((Policy.loops settings).announce call)) with
  | error h t =>
    obtain rfl := (dispatch_of_halted saturated forced).symm.trans whole
    obtain ⟨xs, forces⟩ := forces_of_forceArguments forced (Outcome.finished_halt finished)
    exact ⟨xs, _, forces, .halt⟩
  | ok reply t =>
    obtain ⟨xs, forces⟩ := forces_of_forceArguments forced (Outcome.finished_ok _ _)
    cases reply with
    | error fault =>
      obtain rfl := (dispatch_of_faulted saturated forced).symm.trans whole
      exact ⟨xs, _, forces, .fault⟩
    | ok ws =>
      obtain ⟨caller, u, presented⟩ := presentedCaller_ok call t
      obtain ⟨n, forced⟩ := forces.ends (Outcome.finished_ok _ _)
      refine ⟨xs, _, forces, .body presented ⟨max enough n, fun fuel more => ?_⟩⟩
      exact (dispatch_of_presented saturated (forced fuel (by omega)) presented).symm.trans
        (run fuel (by omega))

end

end Machine

namespace Bodies

open Machine

/-- An application with too few arguments forces nothing. With enough of them it forces those of
executed parameters, from left to right, and goes on with what they come to or with what has stopped
them. What is forced is determined, and nothing else happens meanwhile; suspended parameters keep
their arguments, and executed ones have none that is a suspension. -/
theorem forcing_exact {bodies : Bodies} (undispatched : bodies.Undispatched) (settings : Settings)
    (call : Call) (s : Store) :
    (call.isSaturated = false → ∀ o, Ends bodies (fun eval _ => eval (.dispatch settings call)) s o ↔
      o = .ok (.ok (.closure (call.rebound s.nextIdentity)))
        { nextIdentity := s.nextIdentity + 1
          tally := s.tally.count .closure
          journal := .event (.partialApplication call.closure.name call.supplied.length
            call.closure.arity) :: (s.log ((Policy.loops settings).announce call)).journal }) ∧
    (call.isSaturated = true → ∀ o : Outcome Reply, o.Finished →
      (Ends bodies (fun eval _ => eval (.dispatch settings call)) s o ↔
        ∃ xs forced, ForcesFor bodies settings call s xs forced ∧
          Proceeds bodies settings call forced o)) ∧
    ∀ xs forced, ForcesFor bodies settings call s xs forced →
      (∀ xs' forced', ForcesFor bodies settings call s xs' forced' →
        xs = xs' ∧ forced = forced') ∧
      InTurn bodies settings call.state (s.log ((Policy.loops settings).announce call)) xs
        forced.store ∧
      ∀ ws t, forced = .ok (.ok ws) t →
        Prepared call.closure.signature.parameters call.positional ws := by
  refine ⟨fun unsaturated o => ?_, fun saturated o finished => dispatch_ends_iff saturated finished,
    fun xs forced forces => ⟨fun _ _ => forces.unique, forces.inTurn undispatched, ?_⟩⟩
  · have ends : Ends bodies (fun eval _ => eval (.dispatch settings call)) s _ := .step
      ⟨0, fun _ _ => (dispatch_of_unsaturated unsaturated).trans
        (bindSupplied_of_unsaturated unsaturated)⟩
    refine ⟨fun ends' => ends'.unique ends, ?_⟩
    rintro rfl
    exact ends
  · rintro ws t rfl
    exact forces.prepared

namespace Thawing

def outer : Suspension Value := ⟨1, ⟨"outer", 1, none⟩, .root⟩

def inner : Suspension Value := ⟨2, ⟨"inner", 2, none⟩, .root⟩

def last : TailCall := ⟨⟨3, ⟨"last", 3, none⟩, none, .parameterless .loop .withheld, [], []⟩, []⟩

def call : Call :=
  ⟨⟨0, ⟨"collect", 0, none⟩, none,
    ⟨.direct, .withheld, [.plain 0 "x", .suspended 1 "y", .plain 2 "z"], by decide⟩, [], []⟩,
    none, .unit, [.suspension outer, .suspension outer, .suspension outer]⟩

def forced : List Value := [.unit, .suspension outer, .unit]

end Thawing

open Thawing

def thawing : Bodies
  | 0, payload => .done (.ok (.array payload.arguments))
  | 1, _ => .done (.ok (.suspension inner))
  | 2, _ => .done (.error (.tailCall last))
  | _, _ => .done (.ok .unit)

theorem thawing_undispatched : Undispatched thawing := fun label _ =>
  match label with
  | 0 | 1 | 2 | _ + 3 => trivial

theorem outer_wakes (s : Store) :
    ∃ t, Wakes thawing {} .unit outer s (.ok (.ok (.suspension inner)) t) := by
  have asked : Ends thawing (fun eval _ => resume eval outer .unit) s
      (.ok (.ok (.suspension inner)) _) := .step ⟨0, fun _ _ => rfl⟩
  exact ⟨_, .resolved asked (Outcome.resolved_ok (.ok _) _)⟩

theorem inner_wakes (s : Store) : ∃ t, Wakes thawing {} .unit inner s (.ok (.ok .unit) t) := by
  have asked : Ends thawing (fun eval _ => resume eval inner .unit) s
      (.ok (.error (.tailCall last)) _) := .step ⟨0, fun _ _ => rfl⟩
  have performed (u : Store) : ∃ t, Performs thawing {} .unit last u (.ok (.ok .unit) t) :=
    ⟨_, performs_of_run 3 rfl trivial⟩
  obtain ⟨t, performed⟩ := performed _
  exact ⟨t, .loop asked (.last rfl performed (Outcome.resolved_ok (.ok _) _))⟩

theorem outer_unwinds (s : Store) :
    ∃ t, Unwinds thawing {} .unit (.suspension outer) s [outer, inner] (.ok (.ok .unit) t) := by
  obtain ⟨t, first⟩ := outer_wakes s
  obtain ⟨u, second⟩ := inner_wakes t
  exact ⟨u, .next first (.next second (.value nofun))⟩

theorem thawing_forced : thawing.Undispatched ∧ call.isSaturated = true ∧
    ∃ t u, ForcesFor thawing {} call {} [outer, inner, outer, inner] (.ok (.ok forced) t) ∧
      InTurn thawing {} .unit (Store.log {} [.dispatched call]) [outer, inner, outer, inner] t ∧
      Ends thawing (fun eval _ => eval (.dispatch {} call)) {} (.ok (.ok (.array forced)) u) := by
  obtain ⟨s, first⟩ := outer_unwinds (Store.log {} [.dispatched call])
  obtain ⟨t, third⟩ := outer_unwinds s
  have forces : ForcesFor thawing {} call {} [outer, inner, outer, inner] (.ok (.ok forced) t) :=
    .executed rfl first (.kept rfl (.executed rfl third (.done (.inl rfl))))
  have invoked : Ends thawing (fun eval _ => eval (.invoke (.application call)
      (.ofClosure call.closure none call.state forced))) t (.ok (.ok (.array forced)) _) :=
    .step ⟨0, fun _ _ => rfl⟩
  have body : Ends thawing (fun eval rounds => eval (.invoke (.application call)
      (.ofClosure call.closure none call.state forced)) >>= finish eval rounds {} call) t
      (.ok (.ok (.array forced)) _) := invoked.bind ⟨0, fun _ _ => rfl⟩
  obtain ⟨-, ends, determined⟩ := forcing_exact thawing_undispatched {} call {}
  have whole := (ends rfl _ (Outcome.finished_ok _ _)).mpr ⟨_, _, forces, .body rfl body⟩
  exact ⟨thawing_undispatched, rfl, t, _, forces, (determined _ _ forces).2.1, whole⟩

end Bodies

end Callable
