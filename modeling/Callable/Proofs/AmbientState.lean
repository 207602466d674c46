import Callable.Proofs.Derivation
import Callable.Proofs.Growth

/-! Which state a tail call runs in. A request is performed right after it is made, with the
state of the loop that the body runs in; so it keeps the state of the body that makes it exactly
if that is the state of the loop. -/

namespace Callable

section

variable {settings : Settings} {c : Conduct}

namespace Handover

/-- The journal has next that the request is performed in that state. -/
def PerformedIn {C : Type} (h : Handover C) (state : Value) (o : Outcome Reply) : Prop :=
  .dispatched (Machine.requested state h.request) :: h.store.journal <:+ o.store.journal

/-- What becomes of a request: a loop performs it with its own state, or it ends the run. -/
inductive Fate (settings : Settings) (h : Handover (Policy.loops settings).Context) :
    Outcome Reply → Prop where
  | performed {loop : Loop} {o} (context : h.context = some loop)
      (within : settings.exceeded? (loop.performed.getD 0 + 1) = none)
      (next : h.PerformedIn loop.state o) : Fate settings h o
  | refused {fault}
      (turn : (Policy.loops settings).turn h.context h.payload h.request = .error fault) :
      Fate settings h (.ok (.error fault) h.store)
  | cut : Fate settings h (.error .exhausted h.store)

theorem Fate.extend {h : Handover (Policy.loops settings).Context} {v : Value} {t : Store}
    {o : Outcome Reply} (fate : h.Fate settings (.ok (.ok v) t))
    (more : t.journal <:+ o.store.journal) : h.Fate settings o := by
  cases fate with
  | performed context within next => exact .performed context within (next.trans more)

theorem PerformedIn.not_same {C : Type} {h : Handover C} {state : Value} {o : Outcome Reply}
    (performed : h.PerformedIn state o) : o.store ≠ h.store := by
  intro same
  have longer := performed.length_le
  rw [same, List.length_cons] at longer
  omega

theorem PerformedIn.state_unique {C : Type} {h : Handover C} {state state' : Value}
    {o : Outcome Reply} (performed : h.PerformedIn state o)
    (performed' : h.PerformedIn state' o) : state = state' := by
  have shorter := List.suffix_of_suffix_length_le performed performed' (by simp)
  have same := shorter.eq_of_length (by simp)
  simp only [Machine.requested, List.cons.injEq, Entry.dispatched.injEq, Call.mk.injEq] at same
  exact same.1.2.2.1

end Handover

namespace Evaluates

variable {s : Store} {hs : List (Handover (Policy.loops settings).Context)} {o : Outcome Reply}

theorem announced (call : Call) (s : Store) :
    .dispatched call :: s.journal <:+ (s.log ((Policy.loops settings).announce call)).journal := by
  unfold Policy.loops
  cases settings.traceCalls with
  | false => exact List.suffix_refl _
  | true => exact List.suffix_cons _ _

theorem apply_dispatched {x : (Policy.loops settings).Context} {call : Call}
    (h : Evaluates (.loops settings) c (.apply x call) s hs o) :
    o = .error .exhausted s ∨ .dispatched call :: s.journal <:+ o.store.journal := by
  cases h with
  | cut => exact .inl rfl
  | bind _ bound =>
    have binds := (Run.Idles.bindSupplied call).grows
    exact .inr ((announced call s).trans (binds.of_eq bound))
  | exact _ _ run | excessStop _ _ run => exact .inr ((announced call s).trans run.journal_suffix)
  | excess _ _ run surplus =>
    have body := (announced call s).trans run.journal_suffix
    exact .inr ((body.trans (Store.suffix_log _ _)).trans surplus.journal_suffix)
  | excessOther _ _ run =>
    have body := (announced call s).trans run.journal_suffix
    exact .inr (body.trans (Store.suffix_log _ _))

theorem resolve_fate {x : (Policy.loops settings).Context} {payload : Payload}
    {request : TailCall}
    (h : Evaluates (.loops settings) c (.resolve x payload request) s hs o) :
    Handover.Fate settings ⟨x, payload, request, s⟩ o := by
  cases h with
  | cut => exact .cut
  | refuse turn => exact .refused turn
  | next turn apply =>
    obtain ⟨loop, rfl, within, rfl, rfl⟩ := Policy.loops_turn_eq_ok turn
    rcases apply.apply_dispatched with rfl | dispatched
    · exact .cut
    · exact .performed rfl within dispatched

end Evaluates

def Job.Constructing {C : Type} : Job C → Prop
  | .perform _ _ p => p.Within Request.Constructs fun _ => True
  | _ => True

theorem Program.Within.not_aside {accepted : Ending → Prop} {p : Program Ending}
    (h : p.Within Request.Constructs accepted) : p.aside? = none := by
  cases p with
  | done => rfl
  | ask r next => cases r <;> first | rfl | exact h.1.elim

namespace Evaluates

variable {job : Job (Policy.loops settings).Context} {s : Store}
  {hs : List (Handover (Policy.loops settings).Context)} {o : Outcome Reply}

theorem fates (constructing : c.Constructing) (h : Evaluates (.loops settings) c job s hs o)
    (constructs : job.Constructing) : ∀ h ∈ hs, h.Fate settings o := by
  induction h with
  | cut | bind | value | reply | askHalt | refuse => exact fun _ mem => by cases mem
  | exact _ _ _ ih | excessStop _ _ _ _ ih | keep _ _ ih | forceStop _ _ _ ih | body _ _ _ ih
  | suspensionStop _ _ ih | frame _ ih | next _ _ ih => exact ih trivial
  | excess _ _ _ surplus ihr ihs =>
    have more := (Store.suffix_log _ _).trans surplus.journal_suffix
    exact List.forall_mem_append.mpr ⟨fun h mem => (ihr trivial h mem).extend more, ihs trivial⟩
  | excessOther _ _ _ _ ih =>
    exact fun h mem => (ih trivial h mem).extend (Store.suffix_log _ _)
  | forced _ _ rest ihf ihr | again _ rest ihf ihr =>
    have more := rest.journal_suffix
    exact List.forall_mem_append.mpr ⟨fun h mem => (ihf trivial h mem).extend more, ihr trivial⟩
  | invoke _ ih => exact ih (constructing _ _)
  | request resolve ih =>
    exact List.forall_mem_cons.mpr ⟨resolve.resolve_fate, ih trivial⟩
  | ask _ _ ih => exact ih (constructs.2 _)
  | aside aside | asideHalt aside =>
    have none := Program.Within.not_aside constructs
    cases none.symm.trans aside

end Evaluates

namespace Handover

/-- The request comes to a loop, within its limit, that has the state of the body. -/
def Kept (settings : Settings) (h : Handover (Policy.loops settings).Context) : Prop :=
  ∃ loop, h.context = some loop ∧ settings.exceeded? (loop.performed.getD 0 + 1) = none ∧
    loop.state = h.payload.state

variable {h : Handover (Policy.loops settings).Context} {o : Outcome Reply}

theorem Fate.kept (fate : h.Fate settings o) (performed : h.PerformedIn h.payload.state o) :
    h.Kept settings := by
  cases fate with
  | performed context within next => exact ⟨_, context, within, next.state_unique performed⟩
  | refused => exact absurd rfl performed.not_same
  | cut => exact absurd rfl performed.not_same

theorem Fate.performedIn (fate : h.Fate settings o) (finished : o.Finished)
    (kept : h.Kept settings) : h.PerformedIn h.payload.state o := by
  obtain ⟨loop, context, within, same⟩ := kept
  cases fate with
  | performed context' _ next =>
    cases context.symm.trans context'
    exact same ▸ next
  | refused turn =>
    rw [context, Policy.loops_turn_of_within within] at turn
    cases turn
  | cut => exact finished.elim

end Handover

/-- A property of contexts, with the states of the bodies in them, which each loop has and which
is kept by the applications from inside bodies that end as accepted. -/
structure Policy.Invariant (settings : Settings) (accepted : Payload → Ending → Prop)
    (holds : (loops settings).Context → Value → Prop) : Prop where
  own : ∀ state, holds ((loops settings).own state) state
  inFrame : ∀ {x payload call}, holds x payload.state → accepted payload (.frame call) →
    holds ((loops settings).inFrame x call) call.state
  turn : ∀ {x payload request y state}, (loops settings).turn x payload request = .ok (y, state) →
    holds y state

def Job.Keeps {C : Type} (accepted : Payload → Ending → Prop) (holds : C → Value → Prop) :
    Job C → Prop
  | .apply x call => holds x call.state
  | .run x call _ _ _ => holds x call.state
  | .force _ _ => True
  | .invoke x _ payload => holds x payload.state
  | .perform x payload p => holds x payload.state ∧ p.Within Request.Constructs (accepted payload)
  | .resolve x payload _ => holds x payload.state

namespace Evaluates

variable {job : Job (Policy.loops settings).Context} {s : Store}
  {hs : List (Handover (Policy.loops settings).Context)} {o : Outcome Reply}
  {accepted : Payload → Ending → Prop} {holds : (Policy.loops settings).Context → Value → Prop}

/-- By induction on the evaluation, an invariant holds wherever a tail call is asked for. -/
theorem contexts (invariant : Policy.Invariant settings accepted holds)
    (within : ∀ label payload,
      (c.body label payload).Within Request.Constructs (accepted payload))
    (h : Evaluates (.loops settings) c job s hs o) (kept : job.Keeps accepted holds) :
    ∀ h ∈ hs, holds h.context h.payload.state := by
  induction h with
  | cut | bind | value | reply | askHalt | refuse => exact fun _ mem => by cases mem
  | exact _ _ _ ih | keep _ _ ih | body _ _ _ ih => exact ih kept
  | excessStop _ _ _ _ ih | excessOther _ _ _ _ ih | suspensionStop _ _ ih =>
    exact ih (invariant.own _)
  | excess _ _ _ _ ihr ihs =>
    exact List.forall_mem_append.mpr ⟨ihr (invariant.own _), ihs (invariant.own _)⟩
  | forceStop _ _ _ ih => exact ih trivial
  | forced _ _ _ ihf ihr => exact List.forall_mem_append.mpr ⟨ihf trivial, ihr kept⟩
  | again _ _ ihf ihr => exact List.forall_mem_append.mpr ⟨ihf (invariant.own _), ihr trivial⟩
  | invoke _ ih => exact ih ⟨kept, within _ _⟩
  | request _ ih => exact List.forall_mem_cons.mpr ⟨kept.1, ih kept.1⟩
  | frame _ ih => exact ih (invariant.inFrame kept.1 kept.2)
  | ask _ _ ih => exact ih ⟨kept.1, kept.2.2 _⟩
  | aside aside | asideHalt aside =>
    have none := Program.Within.not_aside kept.2
    cases none.symm.trans aside
  | next turn _ ih => exact ih (invariant.turn turn)

end Evaluates

def Loop.Around (x : (Policy.loops settings).Context) : Prop := ∃ loop, x = some loop

def Loop.Agrees (x : (Policy.loops settings).Context) (state : Value) : Prop :=
  ∀ loop, x = some loop → loop.state = state

namespace Policy

theorem loops_around (settings : Settings) :
    Invariant settings (fun _ _ => True) fun x _ => Loop.Around x where
  own _ := ⟨_, rfl⟩
  inFrame {x payload call} h _ := by
    cases strategy : call.closure.signature.strategy with
    | loop => exact ⟨_, loops_inFrame_of_loop strategy⟩
    | direct => rwa [loops_inFrame_of_direct strategy]
  turn turn := by
    obtain ⟨loop, -, -, rfl, -⟩ := loops_turn_eq_ok turn
    exact ⟨_, rfl⟩

theorem agrees_own (state : Value) : Loop.Agrees ((loops settings).own state) state := by
  intro loop h
  cases h
  rfl

theorem loops_agree (settings : Settings) :
    Invariant settings Ending.KeepsState Loop.Agrees where
  own := agrees_own
  inFrame {x payload call} h same := by
    cases strategy : call.closure.signature.strategy with
    | loop =>
      rw [loops_inFrame_of_loop strategy]
      exact agrees_own _
    | direct =>
      have same : call.state = payload.state := same
      rwa [loops_inFrame_of_direct strategy, same]
  turn turn := by
    obtain ⟨loop, -, -, rfl, rfl⟩ := loops_turn_eq_ok turn
    intro loop h
    cases h
    rfl

end Policy

inductive Entrance where
  | apply (call : Call)
  | applyInFrame (call : Call)
  | force (x : Suspension Value) (state : Value)

namespace Entrance

def run (settings : Settings) (eval : Evaluator) (rounds : Nat) : Entrance → Run Reply
  | .apply call => Machine.apply eval rounds settings call
  | .applyInFrame call => Machine.applyInFrame eval rounds settings call
  | .force x state => Machine.force eval rounds settings x state

def job (settings : Settings) : Entrance → Job (Policy.loops settings).Context
  | .apply call => .apply ((Policy.loops settings).own call.state) call
  | .applyInFrame call =>
    .apply ((Policy.loops settings).inFrame (Policy.loops settings).back call) call
  | .force x state =>
    .invoke ((Policy.loops settings).own state) (.suspension x) (.ofSuspension x state)

theorem evaluates (entrance : Entrance) (settings : Settings) (c : Conduct) (fuel rounds : Nat)
    (s : Store) : ∃ hs, Evaluates (.loops settings) c (entrance.job settings) s hs
      (entrance.run settings (Machine.evaluate (c.bodies settings) fuel) rounds s) := by
  have derivable := Machine.derivable_evaluate settings c fuel
  cases entrance with
  | apply call => exact derivable.apply rounds call s
  | applyInFrame call =>
    cases strategy : call.closure.signature.strategy with
    | loop =>
      simp only [run, job, Machine.applyInFrame_of_loop strategy,
        Policy.loops_inFrame_of_loop strategy]
      exact derivable.apply rounds call s
    | direct =>
      simp only [run, job, Machine.applyInFrame_of_direct strategy,
        Policy.loops_inFrame_of_direct strategy]
      exact (derivable.dispatch call s).back
  | force x state => exact derivable.force rounds x state s

theorem constructing (entrance : Entrance) : (entrance.job settings).Constructing := by
  cases entrance <;> exact trivial

/-- All but the application of a direct closure in a frame. -/
def Looped : Entrance → Prop
  | .applyInFrame call => call.closure.signature.strategy = .loop
  | _ => True

theorem around (entrance : Entrance) (looped : entrance.Looped) :
    (entrance.job settings).Keeps (fun _ _ => True) fun x _ => Loop.Around x := by
  cases entrance with
  | apply | force => exact (Policy.loops_around settings).own _
  | applyInFrame call => exact ⟨_, Policy.loops_inFrame_of_loop looped⟩

theorem agrees (entrance : Entrance) :
    (entrance.job settings).Keeps Ending.KeepsState Loop.Agrees := by
  cases entrance with
  | apply | force => exact (Policy.loops_agree settings).own _
  | applyInFrame call =>
    cases strategy : call.closure.signature.strategy with
    | loop =>
      simp only [job, Policy.loops_inFrame_of_loop strategy]
      exact (Policy.loops_agree settings).own _
    | direct =>
      simp only [job, Policy.loops_inFrame_of_direct strategy]
      exact fun _ no_loop => nomatch no_loop

end Entrance

namespace Conduct

/-- A tail call keeps the state of the body that asks for it exactly if it comes, within the
limit, to a loop that has this state. It comes to a loop unless a direct closure was applied in a
frame that no loop is around; and each loop has the state of the body if all applications from
inside bodies keep the state. -/
theorem tailCall_keeps_state_iff (constructing : c.Constructing) (settings : Settings)
    (entrance : Entrance) :
    (∀ fuel rounds s, ∃ hs, Evaluates (.loops settings) c (entrance.job settings) s hs
      (entrance.run settings (Machine.evaluate (c.bodies settings) fuel) rounds s)) ∧
    ∀ s hs o, Evaluates (.loops settings) c (entrance.job settings) s hs o → ∀ h ∈ hs,
      (h.PerformedIn h.payload.state o → h.Kept settings) ∧
      (o.Finished → h.Kept settings → h.PerformedIn h.payload.state o) ∧
      (entrance.Looped → ∃ loop, h.context = some loop) ∧
      (c.KeepsState → ∀ loop, h.context = some loop → loop.state = h.payload.state) := by
  refine ⟨entrance.evaluates settings c, fun s hs o run h mem => ?_⟩
  have fate := run.fates constructing entrance.constructing h mem
  refine ⟨fate.kept, fate.performedIn, fun looped => ?_, fun keeps => ?_⟩
  · exact run.contexts (Policy.loops_around settings) constructing (entrance.around looped) h mem
  · exact run.contexts (Policy.loops_agree settings) keeps entrance.agrees h mem

theorem relay_evaluates (f : Value → Value) (state : Value) : ∃ h t,
    Evaluates (.loops {}) (relay .direct f) (Entrance.job {} (.apply (relayed .direct state))) {}
      [h] (.ok (.ok state) t) ∧
    Entrance.run {} (Machine.evaluate ((relay .direct f).bodies {}) 9) 9
      (.apply (relayed .direct state)) {} = .ok (.ok state) t ∧
    h.payload.state = f state ∧ h.context = some ⟨state, none⟩ ∧
    ∀ state', .dispatched (Machine.requested state' h.request) ∈ t.journal → state' = state := by
  refine ⟨_, _,
    .exact rfl rfl (.body (.inl rfl) rfl (.invoke (.ask rfl (.frame
      (.exact rfl rfl (.body (.inl rfl) rfl (.invoke (.ask rfl (.request
        (.next rfl (.exact rfl rfl (.body (.inl rfl) rfl (.invoke (.reply (.ok _))))))))))))))),
    rfl, rfl, rfl, fun state' mem => ?_⟩
  simp only [Store.log, Policy.loops, Machine.requested, relayed] at mem
  simpa using mem

theorem relay_keeps_state : (relay .direct id).Constructing ∧ (relay .direct id).KeepsState ∧
    ∃ h t, Evaluates (.loops {}) (relay .direct id)
      (Entrance.job {} (.apply (relayed .direct (.integer 1)))) {} [h]
      (.ok (.ok (.integer 1)) t) ∧
    h.Kept {} ∧ h.PerformedIn h.payload.state (.ok (.ok (.integer 1)) t) := by
  have keeps := relay_keepsState .direct
  have constructing := keeps.constructing
  obtain ⟨h, t, run, -, -, context, -⟩ := relay_evaluates id (.integer 1)
  obtain ⟨-, performed, -, state⟩ := (tailCall_keeps_state_iff constructing {}
    (.apply (relayed .direct (.integer 1)))).2 _ _ _ run h (List.mem_singleton.mpr rfl)
  have kept : h.Kept {} := ⟨_, context, rfl, state keeps _ context⟩
  exact ⟨constructing, keeps, h, t, run, kept, performed trivial kept⟩

/-- A body that is applied in a state of its own, and asks for a tail call, loses that state. -/
theorem relay_loses_state : (relay .direct fun _ => .integer 2).Constructing ∧ ∃ h t,
    Entrance.run {} (Machine.evaluate ((relay .direct fun _ => .integer 2).bodies {}) 9) 9
      (.apply (relayed .direct (.integer 1))) {} = .ok (.ok (.integer 1)) t ∧
    Evaluates (.loops {}) (relay .direct fun _ => .integer 2)
      (Entrance.job {} (.apply (relayed .direct (.integer 1)))) {} [h]
      (.ok (.ok (.integer 1)) t) ∧
    h.payload.state = .integer 2 ∧
    .dispatched (Machine.requested h.payload.state h.request) ∉ t.journal := by
  obtain ⟨h, t, run, machine, state, -, only⟩ := relay_evaluates _ (.integer 1)
  refine ⟨relay_constructing _ _, h, t, machine, run, state, fun mem => ?_⟩
  cases state.symm.trans (only _ mem)

end Conduct

end

end Callable
