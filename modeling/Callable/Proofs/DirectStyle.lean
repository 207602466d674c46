import Callable.Proofs.Likeness.Instances
import Callable.Proofs.Realization
import Callable.Proofs.Simulation

/-! Call loops refine direct style. Bodies that apply only at their end, and then in their own
state, come to the same in call loops and in direct style, where a tail call is a nested
application. So it makes no difference which strategies their signatures have. -/

namespace Callable

open List (Forall₂)

namespace Likeness

theorem same.program_refl {accepted : Ending → Prop} {frames : Call → Call → Prop}
    (allowed : ∀ call, accepted (.frame call) → frames call call) {p : Program Ending}
    (h : p.Within Request.Constructs accepted) :
    same.program False (same.ending frames) p p := by
  induction p with
  | done ending =>
    cases ending with
    | reply r => exact .done (.reply (reply_refl r))
    | frame call => exact .done (.frame (allowed call h) (call_refl call))
  | ask r next ih =>
    obtain ⟨constructs, h⟩ := h
    cases r with
    | newClosure target p g bound carried =>
      refine .ask (.newClosure (scope_refl p) rfl (values_refl bound) (values_refl carried)) ?_
      rintro _ _ ⟨i, _, rfl, rfl, rfl⟩
      exact ih _ (h _)
    | newSuspension target p =>
      refine .ask (.newSuspension (Scope.Alike.refl (fun _ => rfl) p)) ?_
      rintro _ _ ⟨i, _, rfl, rfl, rfl⟩
      exact ih _ (h _)
    | newScope p bs =>
      refine .ask (.newScope (scope_refl p)
        (List.forall₂_same.mpr fun b _ => .mk rfl)) ?_
      rintro _ _ ⟨rfl, rfl⟩
      exact ih _ (h _)
    | newCaller p name location =>
      refine .ask (.newCaller (scope_refl p)) ?_
      rintro _ _ ⟨rfl, rfl⟩
      exact ih _ (h _)
    | note text => exact .ask (.note text) fun a a' _ => ih a (h a)
    | _ => exact constructs.elim

end Likeness

section

variable {settings : Settings}

def Loop.Runs (x : (Policy.loops settings).Context) (state : Value) : Prop :=
  ∃ performed, x = some ⟨state, performed⟩

theorem Loop.runs_inFrame {x : (Policy.loops settings).Context} {state : Value} {call : Call}
    (h : Loop.Runs x state) (keeps : call.state = state) :
    Loop.Runs ((Policy.loops settings).inFrame x call) call.state := by
  cases strategy : call.closure.signature.strategy with
  | loop =>
    rw [Policy.loops_inFrame_of_loop strategy]
    exact ⟨none, rfl⟩
  | direct => rwa [Policy.loops_inFrame_of_direct strategy, keeps]

theorem Loop.runs_turn (unlimited : settings.loopLimit = none) {state : Value}
    (performed : Option UInt64) (payload : Payload) (request : TailCall) :
    ∃ y, (Policy.loops settings).turn (some ⟨state, performed⟩) payload request = .ok (y, state) ∧
      Loop.Runs y state := by
  have within : settings.exceeded? (performed.getD 0 + 1) = none := by
    simp [Settings.exceeded?, unlimited]
  exact ⟨_, Policy.loops_turn_of_within within, _, rfl⟩

namespace Policy

/-- A loop beside direct style: it has the state of the body that runs in it. -/
def loopsDirect (unlimited : settings.loopLimit = none) :
    Correspondence .same (loops settings) direct where
  context x _ state _ := Loop.Runs x state
  asides := False
  frames p _ call _ := call.state = p.state
  own _ := ⟨none, rfl⟩
  back := False.elim
  inFrame h keeps _ := Loop.runs_inFrame h keeps
  announce := loops_announce_quiet settings
  announce' _ := .nil
  enter := loops_enter_quiet settings
  enter' _ _ := .nil
  turn := by
    rintro x x' p p' q q' ⟨performed, rfl⟩ payloads requests
    obtain ⟨y, turn, runs⟩ := Loop.runs_turn unlimited performed p q
    rw [turn]
    exact .next payloads.state runs

def directLoops (unlimited : settings.loopLimit = none) :
    Correspondence .same direct (loops settings) where
  context _ x' _ state' := Loop.Runs x' state'
  asides := False
  frames _ p' _ call' := call'.state = p'.state
  own _ := ⟨none, rfl⟩
  back := False.elim
  inFrame h keeps _ := Loop.runs_inFrame h keeps
  announce _ := .nil
  announce' := loops_announce_quiet settings
  enter _ _ := .nil
  enter' := loops_enter_quiet settings
  turn := by
    rintro x x' p p' q q' ⟨performed, rfl⟩ payloads requests
    obtain ⟨y, turn, runs⟩ := Loop.runs_turn unlimited performed p' q'
    rw [turn]
    exact .next payloads.state runs

def directDirect (L : Likeness) : Correspondence L direct direct where
  context _ _ _ _ := True
  asides := False
  frames _ _ _ _ := True
  own _ := trivial
  back _ _ _ := trivial
  inFrame _ _ _ := trivial
  announce _ := .nil
  announce' _ := .nil
  enter _ _ := .nil
  enter' _ _ := .nil
  turn _ payloads _ := .next payloads.state trivial

end Policy

end

/-- What an observer learns of a run: how it comes out and what it has invoked. -/
def Outcome.observed (o : Outcome Reply) : Except Halt Reply × List (Callee × Payload) :=
  match o with
  | .ok reply t => (.ok reply, t.invocations)
  | .error h t => (.error h, t.invocations)

namespace Likeness

variable {base base' : List (Callee × Payload)} {s t u : Store} {o o' o'' : Outcome Reply}

theorem same.store_eq (h : same.store base base s t) :
    s.nextIdentity = t.nextIdentity ∧ s.invocations = t.invocations := by
  obtain ⟨identities, since, since', e, e', alike⟩ := h
  exact ⟨identities 0, by rw [e, e', eq_of_forall₂ invocation_eq alike]⟩

theorem same.observed_eq (h : same.outcome base base o o') : o.observed = o'.observed := by
  cases h with
  | ok replies stores =>
    simp only [Outcome.observed, (store_eq stores).2, reply_eq replies]
  | error stores => simp only [Outcome.observed, (store_eq stores).2]

variable {L : Likeness}

theorem store.of_same (h : same.store base base s t) (h' : L.store base base' t u) :
    L.store base base' s u := by
  obtain ⟨identity, invocations⟩ := same.store_eq h
  exact h'.congr 0 identity rfl invocations rfl

theorem store.to_same (h : L.store base base' s t) (h' : same.store base' base' t u) :
    L.store base base' s u := by
  obtain ⟨identity, invocations⟩ := same.store_eq h'
  exact h.congr 0 rfl identity.symm rfl invocations.symm

theorem outcome.of_same (h : same.outcome base base o o') (h' : L.outcome base base' o' o'') :
    L.outcome base base' o o'' := by
  cases h with
  | ok replies stores =>
    obtain ⟨replies', stores'⟩ := h'
    exact .ok (same.reply_eq replies ▸ replies') (.of_same stores stores')
  | error stores =>
    cases h' with
    | error stores' => exact .error (.of_same stores stores')

theorem outcome.to_same (h : L.outcome base base' o o') (h' : same.outcome base' base' o' o'') :
    L.outcome base base' o o'' := by
  cases h' with
  | ok replies stores =>
    obtain ⟨replies', stores'⟩ := h
    exact .ok (same.reply_eq replies ▸ replies') (stores'.to_same stores)
  | error stores =>
    cases h with
    | error stores' => exact .error (stores'.to_same stores)

end Likeness

namespace Conduct

variable {c : Conduct} (keeps : c.KeepsState) {settings : Settings}
  (unlimited : settings.loopLimit = none)

include keeps

theorem KeepsState.loopsDirect : (Policy.loopsDirect unlimited).Conducts c c := by
  intro label p p' payloads
  cases Likeness.same.payload_eq payloads
  exact Likeness.same.program_refl (fun call h => h) (keeps label p)

theorem KeepsState.directLoops : (Policy.directLoops unlimited).Conducts c c := by
  intro label p p' payloads
  cases Likeness.same.payload_eq payloads
  exact Likeness.same.program_refl (fun call h => h) (keeps label p)

include unlimited

theorem KeepsState.evaluates_direct {call : Call} {s : Store} {o : Outcome Reply}
    (finished : o.Finished)
    (ends : Ends (c.bodies settings) (Machine.apply · · settings call) s o) :
    ∃ hs o', Evaluates .direct c (.apply () call) s hs o' ∧
      Likeness.same.outcome s.invocations s.invocations o o' := by
  obtain ⟨hs, h⟩ := (Machine.ends_apply_iff finished).mp ends
  have jobs : (Policy.loopsDirect unlimited).job
      (.apply ((Policy.loops settings).own call.state) call) (.apply () call) :=
    .apply ⟨none, rfl⟩ (Likeness.same.call_refl call).applied
  exact h.simulate Likeness.same.lawful (keeps.loopsDirect unlimited) jobs (.start fun _ => rfl)

theorem KeepsState.ends_loops {call : Call} {s : Store} {hs} {o : Outcome Reply}
    (finished : o.Finished) (h : Evaluates .direct c (.apply () call) s hs o) :
    ∃ o', Ends (c.bodies settings) (Machine.apply · · settings call) s o' ∧
      Likeness.same.outcome s.invocations s.invocations o o' := by
  have jobs : (Policy.directLoops unlimited).job (.apply () call)
      (.apply ((Policy.loops settings).own call.state) call) :=
    .apply ⟨none, rfl⟩ (Likeness.same.call_refl call).applied
  obtain ⟨hs', o', h', alike⟩ :=
    h.simulate Likeness.same.lawful (keeps.directLoops unlimited) jobs (.start fun _ => rfl)
  exact ⟨o', (Machine.ends_apply_iff (alike.finished finished)).mpr ⟨hs', h'⟩, alike⟩

theorem KeepsState.ends_iff (call : Call) (s : Store)
    (observed : Except Halt Reply × List (Callee × Payload)) :
    (∃ o, o.Finished ∧ Ends (c.bodies settings) (Machine.apply · · settings call) s o ∧
      o.observed = observed) ↔
    ∃ hs o, o.Finished ∧ Evaluates .direct c (.apply () call) s hs o ∧ o.observed = observed := by
  constructor
  · rintro ⟨o, finished, ends, rfl⟩
    obtain ⟨hs, o', h, alike⟩ := keeps.evaluates_direct unlimited finished ends
    exact ⟨hs, o', alike.finished finished, h, (Likeness.same.observed_eq alike).symm⟩
  · rintro ⟨hs, o, finished, h, rfl⟩
    obtain ⟨o', ends, alike⟩ := keeps.ends_loops unlimited finished h
    exact ⟨o', alike.finished finished, ends, (Likeness.same.observed_eq alike).symm⟩

end Conduct

namespace Likeness

variable {L : Likeness}

theorem frame.flip {c c' : Call} (h : L.frame c c') : L.flip.frame c' c :=
  ⟨h.target.symm, scope_flip h.scope, h.signature, caller_flip h.caller, h.state⟩

theorem callee.flip {callee callee' : Callee} (h : L.callee callee callee') :
    L.flip.callee callee' callee := by
  cases h with
  | application h => exact .application ⟨h.frame.flip, fun whole => (h.whole whole).flip⟩
  | suspension h => exact .suspension (suspension_flip h)
  | direct target => exact .direct target

theorem store.flip {base base' : List (Callee × Payload)} {s s' : Store}
    (h : L.store base base' s s') : L.flip.store base' base s' s := by
  obtain ⟨identities, since, since', e, e', alike⟩ := h
  exact ⟨identities, since', since, e', e,
    flip_of_forall₂ (fun h => ⟨h.1.flip, h.2.flip⟩) alike⟩

theorem outcome.flip {base base' : List (Callee × Payload)} {o o' : Outcome Reply}
    (h : L.outcome base base' o o') : L.flip.outcome base' base o' o := by
  cases h with
  | ok replies stores => exact .ok replies.flip stores.flip
  | error stores => exact .error stores.flip

theorem ending.flip {a a' : Ending} (h : L.ending (fun _ _ => True) a a') :
    L.flip.ending (fun _ _ => True) a' a := by
  cases h with
  | reply h => exact .reply h.flip
  | frame allowed h => exact .frame allowed h.flip

def upToStrategies : Likeness :=
  upTo Eq (fun g g' => g.access = g'.access ∧ g.parameters = g'.parameters) True

end Likeness

namespace Conduct

/-- Bodies that do not look at strategies, but may have others in the closures they make. -/
def SameButStrategies (c c' : Conduct) : Prop := ∀ label {p p'},
  Likeness.upToStrategies.payload p p' → Likeness.upToStrategies.program False
    (Likeness.upToStrategies.ending fun _ _ => True) (c.body label p) (c'.body label p')

theorem ends_alike {L : Likeness} (lawful : L.Lawful) {settings settings' : Settings}
    (unlimited : settings.loopLimit = none) (unlimited' : settings'.loopLimit = none)
    {c c' : Conduct} (keeps : c.KeepsState) (keeps' : c'.KeepsState)
    (alike : (Policy.directDirect L).Conducts c c') {call call' : Call} (calls : L.call call call')
    {s s' : Store} (identities : ∀ k, L.identity (s.nextIdentity + k) (s'.nextIdentity + k))
    {o : Outcome Reply} (finished : o.Finished)
    (ends : Ends (c.bodies settings) (Machine.apply · · settings call) s o) :
    ∃ o', o'.Finished ∧ Ends (c'.bodies settings') (Machine.apply · · settings' call') s' o' ∧
      L.outcome s.invocations s'.invocations o o' := by
  obtain ⟨_, o₁, direct, alike₁⟩ := keeps.evaluates_direct unlimited finished ends
  have jobs : (Policy.directDirect L).job (.apply () call) (.apply () call') :=
    .apply trivial calls.applied
  obtain ⟨_, o₂, direct', alike₂⟩ := direct.simulate lawful alike jobs (.start identities)
  have finished₂ := alike₂.finished (alike₁.finished finished)
  obtain ⟨o₃, ends', alike₃⟩ := keeps'.ends_loops unlimited' finished₂ direct'
  exact ⟨o₃, alike₃.finished finished₂, ends', (alike₁.of_same alike₂).to_same alike₃⟩

/-- Call loops refine direct style. In loops without a limit an application comes to an answer,
with a sequence of invocations, exactly if it does so in direct style; and both are the same, up
to the strategies in them, whichever strategies the signatures have. -/
theorem loops_refine_direct_style {settings settings' : Settings}
    (unlimited : settings.loopLimit = none) (unlimited' : settings'.loopLimit = none)
    {c c' : Conduct} (keeps : c.KeepsState) (keeps' : c'.KeepsState)
    (alike : c.SameButStrategies c') :
    (∀ call s observed,
      (∃ o, o.Finished ∧ Ends (c.bodies settings) (Machine.apply · · settings call) s o ∧
        o.observed = observed) ↔
      ∃ hs o, o.Finished ∧ Evaluates .direct c (.apply () call) s hs o ∧
        o.observed = observed) ∧
    ∀ call call' s s', Likeness.upToStrategies.call call call' →
      s.nextIdentity = s'.nextIdentity →
      (∀ o, o.Finished → Ends (c.bodies settings) (Machine.apply · · settings call) s o →
        ∃ o', o'.Finished ∧ Ends (c'.bodies settings') (Machine.apply · · settings' call') s' o' ∧
          Likeness.upToStrategies.outcome s.invocations s'.invocations o o') ∧
      ∀ o', o'.Finished → Ends (c'.bodies settings') (Machine.apply · · settings' call') s' o' →
        ∃ o, o.Finished ∧ Ends (c.bodies settings) (Machine.apply · · settings call) s o ∧
          Likeness.upToStrategies.outcome s.invocations s'.invocations o o' := by
  refine ⟨keeps.ends_iff unlimited, fun call call' s s' calls identity => ⟨?_, ?_⟩⟩
  · intro o finished ends
    exact ends_alike (Likeness.upTo_lawful id) unlimited unlimited' keeps keeps' alike calls
      (fun k => congrArg (· + k) identity) finished ends
  · intro o' finished ends
    have alike' : (Policy.directDirect Likeness.upToStrategies.flip).Conducts c' c :=
      fun label _ _ payloads => (alike label payloads.flip).flip Likeness.ending.flip
    obtain ⟨o, finished', ends', outcomes⟩ := ends_alike (Likeness.upTo_lawful id).flip unlimited'
      unlimited keeps' keeps alike' calls.flip (fun k => congrArg (· + k) identity) finished ends
    exact ⟨o, finished', ends', outcomes.flip⟩

theorem relay_sameButStrategies (strategy strategy' : Strategy) :
    (relay strategy id).SameButStrategies (relay strategy' id) := by
  intro label p p' payloads
  rcases label with _ | _ | label
  · refine .ask (.newClosure .none ⟨rfl, rfl⟩ .nil .nil) ?_
    rintro _ _ ⟨i, _, rfl, rfl, rfl⟩
    exact .done (.frame trivial ⟨.mk rfl .none ⟨rfl, rfl⟩ .nil .nil, .none, payloads.state, .nil⟩)
  · refine .ask (.newClosure .none ⟨rfl, rfl⟩ .nil .nil) ?_
    rintro _ _ ⟨i, _, rfl, rfl, rfl⟩
    exact .done (.reply (.error (.tailCall ⟨.mk rfl .none ⟨rfl, rfl⟩ .nil .nil, .nil⟩)))
  · exact .done (.reply (.ok payloads.state))

theorem relayed_run : ∃ t : Store, t.invocations.length = 3 ∧
    Machine.apply (Machine.evaluate ((relay .direct id).bodies {}) 9) 9 {}
      (relayed .direct (.integer 2)) {} = .ok (.ok (.integer 2)) t :=
  ⟨_, rfl, rfl⟩

theorem relay_refines_direct_style :
    (({} : Settings).loopLimit = none ∧ (relay .direct id).KeepsState ∧
      (relay .loop id).KeepsState ∧ (relay .direct id).SameButStrategies (relay .loop id)) ∧
    (∃ hs o is, o.Finished ∧
      Evaluates .direct (relay .direct id) (.apply () (relayed .direct (.integer 2))) {} hs o ∧
      o.observed = (.ok (.ok (.integer 2)), is) ∧ is.length = 3) ∧
    ∃ t, Ends ((relay .loop id).bodies {}) (Machine.apply · · {} (relayed .loop (.integer 2))) {}
      (.ok (.ok (.integer 2)) t) ∧ t.invocations.length = 3 := by
  obtain ⟨t, length, run⟩ := relayed_run
  have ends : Ends ((relay .direct id).bodies {})
      (Machine.apply · · {} (relayed .direct (.integer 2))) {} (.ok (.ok (.integer 2)) t) :=
    .of_fuel (fun le => Machine.apply_le (Machine.evaluate_le _ le) le _ _) run trivial
  have unlimited : ({} : Settings).loopLimit = none := rfl
  obtain ⟨evaluated, alike⟩ := loops_refine_direct_style unlimited unlimited
    (relay_keepsState .direct) (relay_keepsState .loop) (relay_sameButStrategies .direct .loop)
  refine ⟨⟨rfl, relay_keepsState _, relay_keepsState _, relay_sameButStrategies _ _⟩, ?_, ?_⟩
  · obtain ⟨hs, o, finished, h, e⟩ := (evaluated _ _ _).mp ⟨_, Outcome.finished_ok _ _, ends, rfl⟩
    exact ⟨hs, o, t.invocations, finished, h, e, length⟩
  · have calls : Likeness.upToStrategies.call (relayed .direct (.integer 2))
        (relayed .loop (.integer 2)) :=
      ⟨.mk rfl .none ⟨rfl, rfl⟩ .nil .nil, .none, .integer 2, .nil⟩
    obtain ⟨o', finished, ends', outcomes⟩ := (alike _ _ {} {} calls rfl).1 _
      (Outcome.finished_ok _ _) ends
    cases outcomes with
    | @ok _ r' _ t' replies stores =>
      obtain ⟨⟨values⟩, -, since, since', e, e', invocations⟩ := And.intro replies stores
      cases values
      refine ⟨t', ends', ?_⟩
      rw [← length, e, e', List.length_append, List.length_append, invocations.length_eq]

end Conduct

end Callable
