import Callable.Proofs.AmbientState

/-! What runs construct. The store after a run is the store before it with all constructions that
the new entries of the journal stand for. Of its own accord a machine constructs a closure for each
application that lacks arguments, and a caller for each body that may see one and is given none;
the rest is constructed by bodies. -/

namespace Callable

namespace Entry

/-- An application that has to do without some of its arguments. -/
def lacksArguments : Entry → Bool
  | .dispatched call => !call.isSaturated
  | _ => false

/-- The invocation of a body that has full access, though its application has no caller. -/
def lacksCaller : Entry → Bool
  | .invoked (.application call) _ => call.closure.signature.passesCaller && call.caller.isNone
  | _ => false

def creates (r : Resource) : Entry → Bool
  | .created r' => r' = r
  | _ => false

def requires : Resource → Entry → Bool
  | .closure => lacksArguments
  | .caller => lacksCaller
  | _ => fun _ => false

end Entry

def constructed (entries : List Entry) (r : Resource) : Nat :=
  entries.countP (Entry.creates r) + entries.countP (Entry.requires r)

theorem constructed_append (newer older : List Entry) (r : Resource) :
    constructed (newer ++ older) r = constructed newer r + constructed older r := by
  simp only [constructed, List.countP_append]
  omega

theorem constructed_event (e : Event) (r : Resource) : constructed [.event e] r = 0 := by
  cases r <;> rfl

theorem constructed_announce (settings : Settings) (call : Call) (r : Resource) :
    constructed ((Policy.loops settings).announce call).reverse r =
      if call.isSaturated then 0 else if r = .closure then 1 else 0 := by
  unfold Policy.loops
  cases settings.traceCalls <;> cases saturated : call.isSaturated <;> cases r <;>
    simp [constructed, Entry.creates, Entry.requires, Entry.lacksArguments, Entry.lacksCaller,
      saturated]

theorem constructed_enter (settings : Settings) (x : (Policy.loops settings).Context)
    (request : TailCall) (r : Resource) :
    constructed ((Policy.loops settings).enter x request).reverse r = 0 := by
  match x with
  | none => rfl
  | some ⟨_, none⟩ => exact constructed_event _ r
  | some ⟨_, some _⟩ => rfl

theorem constructed_created (r r' : Resource) :
    constructed [.created r] r' = if r' = r then 1 else 0 := by
  cases r <;> cases r' <;> rfl

theorem constructed_invoked (call : Call) (payload : Payload) (r : Resource) :
    constructed [.invoked (.application call) payload] r =
      if r = .caller ∧ call.closure.signature.passesCaller ∧ call.caller = none then 1 else 0 := by
  cases r <;> simp [constructed, Entry.creates, Entry.requires, Entry.lacksArguments,
    Entry.lacksCaller, List.countP_cons]

namespace Tally

def of (n : Resource → Nat) : Tally where
  closures := .ofNat (n .closure)
  suspensions := .ofNat (n .suspension)
  scopes := .ofNat (n .scope)
  callers := .ofNat (n .caller)

def plus (t : Tally) (n : Resource → Nat) : Tally where
  closures := t.closures + .ofNat (n .closure)
  suspensions := t.suspensions + .ofNat (n .suspension)
  scopes := t.scopes + .ofNat (n .scope)
  callers := t.callers + .ofNat (n .caller)

theorem plus_plus (t : Tally) (m n : Resource → Nat) :
    (t.plus m).plus n = t.plus fun r => m r + n r := by
  simp only [plus, UInt64.ofNat_add, UInt64.add_assoc]

theorem plus_since (t : Tally) (n : Resource → Nat) : (t.plus n).since t = of n := by
  have cancel (x y : UInt64) : x + y - x = y := by
    rw [UInt64.add_comm, UInt64.add_sub_cancel]
  simp only [since, plus, of, cancel]

theorem of_add_since (m n : Resource → Nat) : (of fun r => m r + n r).since (of m) = of n := by
  have both : (of fun r => m r + n r) = (of m).plus n := by
    simp only [of, plus, UInt64.ofNat_add]
  rw [both, plus_since]

theorem plus_append (t : Tally) (newer older : List Entry) :
    t.plus (constructed (newer ++ older)) =
      (t.plus (constructed older)).plus (constructed newer) := by
  rw [plus_plus]
  congr 1
  funext r
  rw [constructed_append, Nat.add_comm]

theorem plus_zero (t : Tally) : t.plus (fun _ => 0) = t := by
  simp [plus]

theorem plus_invoked (t : Tally) {callee : Callee} (payload : Payload)
    (other : ∀ call, callee ≠ .application call) :
    t.plus (constructed [.invoked callee payload]) = t := by
  have nothing (r) : constructed [.invoked callee payload] r = 0 := by
    cases callee with
    | application call => exact absurd rfl (other call)
    | _ => cases r <;> rfl
  rw [funext nothing, plus_zero]

theorem plus_suspension (t : Tally) (x : Suspension Value) (payload : Payload) :
    t.plus (constructed [.invoked (.suspension x) payload]) = t :=
  t.plus_invoked payload fun _ e => nomatch e

theorem count_eq_plus (t : Tally) (r : Resource) :
    t.count r = t.plus fun r' => if r' = r then 1 else 0 := by
  cases r <;> simp [count, plus]

end Tally

theorem Outcome.Finished.of_error {α β : Type} {h : Halt} {t : Store}
    (finished : Outcome.Finished (.error h t : Outcome α)) :
    Outcome.Finished (.error h t : Outcome β) := by
  cases h with
  | defect => trivial
  | exhausted => exact finished.elim

/-- From `s`, when the tally was this one, these entries and what they stand for lead to `t`. -/
structure Entered (tally : Tally) (s : Store) (since : List Entry) (t : Store) : Prop where
  journal : t.journal = since ++ s.journal
  tally : t.tally = tally.plus (constructed since)
  identities : t.nextIdentity =
    s.nextIdentity + constructed since .closure + constructed since .suspension

namespace Entered

variable {tally : Tally} {s t u : Store} {older newer : List Entry}

theorem refl (s : Store) : Entered s.tally s [] s := ⟨rfl, s.tally.plus_zero.symm, rfl⟩

theorem extend (h : Entered (tally.plus (constructed older)) t newer u)
    (journal : t.journal = older ++ s.journal) (identities : t.nextIdentity =
      s.nextIdentity + constructed older .closure + constructed older .suspension) :
    Entered tally s (newer ++ older) u where
  journal := by rw [h.journal, journal, List.append_assoc]
  tally := by rw [h.tally, Tally.plus_append]
  identities := by
    rw [h.identities, identities, constructed_append, constructed_append]
    omega

theorem trans (h : Entered tally s older t) (h' : Entered t.tally t newer u) :
    Entered tally s (newer ++ older) u :=
  extend (h.tally ▸ h') h.journal h.identities

theorem log (s : Store) {since : List Entry} (nothing : ∀ r, constructed since r = 0) :
    Entered s.tally s since { s with journal := since ++ s.journal } where
  journal := rfl
  tally := by rw [funext nothing, Tally.plus_zero]
  identities := by
    rw [nothing, nothing]
    rfl

theorem announce (settings : Settings) (s : Store) {call : Call}
    (saturated : call.isSaturated = true) :
    ∃ since, Entered s.tally s since (s.log ((Policy.loops settings).announce call)) :=
  ⟨_, log s fun r => by rw [constructed_announce, if_pos saturated]⟩

theorem bindSupplied (settings : Settings) (s : Store) {call : Call}
    (unsaturated : call.isSaturated = false) :
    ∃ since, Entered s.tally s since (Outcome.store (Machine.bindSupplied call
      (s.log ((Policy.loops settings).announce call)))) := by
  let onward : Entry := .event (.partialApplication call.closure.name call.supplied.length
    call.closure.arity)
  let announced := ((Policy.loops settings).announce call).reverse
  have one (r) : constructed (onward :: announced) r = if r = .closure then 1 else 0 := by
    have fewer : ¬ call.isSaturated = true := by simp [unsaturated]
    rw [← List.singleton_append, constructed_append, constructed_event, constructed_announce,
      if_neg fewer, Nat.zero_add]
  rw [Machine.bindSupplied_of_unsaturated unsaturated]
  refine ⟨onward :: announced, rfl, ?_, ?_⟩
  · rw [funext one, ← Tally.count_eq_plus]
    rfl
  · rw [one, one]
    rfl

theorem presentedCaller {s t : Store} {call : Call} {caller : Option Caller} (payload : Payload)
    (presented : Machine.presentedCaller call s = .ok caller t) :
    ∃ since, (∀ r, constructed since r = 0) ∧ t.journal = since ++ s.journal ∧
      t.tally = s.tally.plus (constructed [.invoked (.application call) payload]) ∧
      t.nextIdentity = s.nextIdentity := by
  unfold Machine.presentedCaller at presented
  cases given : call.caller with
  | some given' =>
    rw [given] at presented
    cases presented
    have none_required (r) : constructed [.invoked (.application call) payload] r = 0 := by
      rw [constructed_invoked, given]
      simp
    exact ⟨[], fun _ => rfl, rfl, by rw [funext none_required, Tally.plus_zero], rfl⟩
  | none =>
    rw [given] at presented
    cases passes : call.closure.signature.passesCaller with
    | true =>
      simp only [passes, if_true] at presented
      cases presented
      have required (r) : constructed [.invoked (.application call) payload] r =
          if r = .caller then 1 else 0 := by
        rw [constructed_invoked, given, passes]
        simp
      refine ⟨_, constructed_event (.detachedCaller call.closure.name), rfl, ?_, rfl⟩
      rw [funext required, ← Tally.count_eq_plus]
    | false =>
      simp only [passes, Bool.false_eq_true, if_false] at presented
      cases presented
      have none_required (r) : constructed [.invoked (.application call) payload] r = 0 := by
        rw [constructed_invoked, given, passes]
        simp
      exact ⟨[], fun _ => rfl, rfl, by rw [funext none_required, Tally.plus_zero], rfl⟩

theorem created (s t : Store) (r : Resource) (journal : t.journal = .created r :: s.journal)
    (tally : t.tally = s.tally.count r) (identities : t.nextIdentity = s.nextIdentity +
      constructed [.created r] .closure + constructed [.created r] .suspension) :
    Entered s.tally s [.created r] t where
  journal := journal
  tally := by rw [tally, funext (constructed_created r), Tally.count_eq_plus]
  identities := identities

theorem construct {r : Request} {s : Store} {o : Outcome r.Answer} (h : r.construct s = o)
    (finished : o.Finished) : ∃ since, Entered s.tally s since o.store := by
  subst h
  cases r with
  | newClosure target scope signature bound carried =>
    by_cases many : signature.arity < bound.length
    · have halted : Outcome.store ((Request.newClosure target scope signature bound
          carried).construct s) = s :=
        congrArg Outcome.store (Run.bind_of_error (Run.newClosure_of_many many))
      rw [halted]
      exact ⟨[], .refl s⟩
    · have answered : Outcome.store ((Request.newClosure target scope signature bound
          carried).construct s) = _ :=
        congrArg Outcome.store (Run.bind_of_ok (Run.newClosure_of_fits many))
      rw [answered]
      exact ⟨_, created s _ .closure rfl rfl rfl⟩
  | newSuspension => exact ⟨_, created s _ .suspension rfl rfl rfl⟩
  | newScope => exact ⟨_, created s _ .scope rfl rfl rfl⟩
  | newCaller => exact ⟨_, created s _ .caller rfl rfl rfl⟩
  | note text =>
    have nothing (r) : constructed [.note text] r = 0 := by cases r <;> rfl
    exact ⟨_, log s nothing⟩
  | apply dispatcher | applyInFrame dispatcher =>
    cases dispatcher with
    | currying => exact finished.elim
    | host => exact ⟨[], .refl s⟩
  | force | resume | invoke => exact finished.elim

end Entered

theorem Program.aside?_other {p : Program Ending} {callee : Callee} {payload : Payload}
    {next : Reply → Program Ending} (aside : p.aside? = some (callee, payload, next)) :
    ∀ call, callee ≠ .application call := by
  unfold Program.aside? at aside
  split at aside
  · cases aside
    exact fun _ e => nomatch e
  · cases aside
    exact fun _ e => nomatch e
  · cases aside

/-- The tally before a job of which this tally is the beginning. A caller that is constructed for
a body is counted before the body is invoked. -/
def Job.prepaid {C : Type} (tally : Tally) : Job C → Tally
  | .invoke _ callee payload => tally.plus (constructed [.invoked callee payload])
  | _ => tally

namespace Evaluates

variable {settings : Settings} {c : Conduct} {job : Job (Policy.loops settings).Context}
  {s : Store} {hs : List (Handover (Policy.loops settings).Context)} {o : Outcome Reply}

theorem entered (h : Evaluates (.loops settings) c job s hs o) (finished : o.Finished)
    {tally : Tally} (before : s.tally = job.prepaid tally) :
    ∃ since, Entered tally s since o.store := by
  induction h generalizing tally with
  | cut => exact finished.elim
  | bind unsaturated bound =>
    cases before
    exact bound ▸ Entered.bindSupplied settings _ unsaturated
  | exact saturated _ _ run | excessStop saturated _ _ _ run =>
    cases before
    obtain ⟨since, announced⟩ := Entered.announce settings _ saturated
    obtain ⟨since', body⟩ := run finished rfl
    exact ⟨_, announced.trans body⟩
  | @excess x call s hs hs' next t o saturated _ _ _ run surplus =>
    cases before
    obtain ⟨since, announced⟩ := Entered.announce settings _ saturated
    obtain ⟨since', body⟩ := run trivial rfl
    obtain ⟨since'', rest⟩ := surplus finished rfl
    have onward := Entered.log t
      (constructed_event (.surplus call.closure.name call.surplus.length))
    exact ⟨_, ((announced.trans body).trans onward).trans rest⟩
  | @excessOther x call s hs v t saturated _ _ _ run =>
    cases before
    obtain ⟨since, announced⟩ := Entered.announce settings _ saturated
    obtain ⟨since', body⟩ := run trivial rfl
    have onward := Entered.log t
      (constructed_event (.surplus call.closure.name call.surplus.length))
    exact ⟨_, (announced.trans body).trans onward⟩
  | keep _ _ ih | forceStop _ _ _ ih | frame _ ih | next _ _ ih =>
    cases before
    exact ih finished rfl
  | forced _ _ _ first rest =>
    cases before
    obtain ⟨since, forced⟩ := first trivial rfl
    obtain ⟨since', onward⟩ := rest finished rfl
    exact ⟨_, forced.trans onward⟩
  | @body x call forced ps rest s caller t hs o _ presented _ ih =>
    cases before
    obtain ⟨since, nothing, journal, tally, identities⟩ := Entered.presentedCaller
      (.ofClosure call.closure caller call.state (forced ++ rest)) presented
    obtain ⟨since', invoked⟩ := ih finished tally
    rw [← Tally.plus_zero s.tally, ← funext nothing] at invoked
    refine ⟨_, invoked.extend journal ?_⟩
    rw [identities, nothing, nothing]
    rfl
  | value =>
    cases before
    exact ⟨[], .refl _⟩
  | again _ _ first rest =>
    cases before
    obtain ⟨since, forced⟩ := first trivial (Tally.plus_suspension _ _ _).symm
    obtain ⟨since', onward⟩ := rest finished rfl
    exact ⟨_, forced.trans onward⟩
  | suspensionStop _ _ ih =>
    cases before
    exact ih finished (Tally.plus_suspension _ _ _).symm
  | @invoke x callee payload s hs o _ ih =>
    have prepaid : (s.log [.invoked callee payload]).tally =
        tally.plus (constructed [.invoked callee payload]) := before
    obtain ⟨since, performed⟩ := ih finished rfl
    rw [prepaid] at performed
    exact ⟨_, performed.extend rfl (by cases callee <;> rfl)⟩
  | reply | refuse =>
    cases before
    exact ⟨[], .refl _⟩
  | request _ ih =>
    cases before
    obtain ⟨since, resolved⟩ := ih finished rfl
    exact ⟨_, (Entered.log _ (constructed_enter _ _ _)).trans resolved⟩
  | ask answered _ ih =>
    cases before
    obtain ⟨since, constructed⟩ := Entered.construct answered trivial
    obtain ⟨since', onward⟩ := ih finished rfl
    exact ⟨_, constructed.trans onward⟩
  | askHalt halted =>
    cases before
    exact Entered.construct halted finished.of_error
  | aside is_aside _ _ first rest =>
    cases before
    have other := Program.aside?_other is_aside
    obtain ⟨since, beside⟩ := first trivial (Tally.plus_invoked _ _ other).symm
    obtain ⟨since', onward⟩ := rest finished rfl
    exact ⟨_, beside.trans onward⟩
  | asideHalt is_aside _ first =>
    cases before
    exact first finished (Tally.plus_invoked _ _ (Program.aside?_other is_aside)).symm

end Evaluates

namespace Bodies

open Machine

theorem entered {bodies : Bodies} (undispatched : bodies.Undispatched) (settings : Settings)
    (entrance : Entrance) {s t : Store} {reply : Reply}
    (ends : Ends bodies (fun eval rounds => entrance.run settings eval rounds) s (.ok reply t)) :
    ∃ since, Entered s.tally s since t := by
  obtain ⟨enough, run⟩ := ends
  have run : entrance.run settings (evaluate bodies enough) enough s = .ok reply t :=
    run enough (Nat.le_refl _)
  obtain ⟨hs, evaluates⟩ := entrance.evaluates settings (.ofBodies bodies undispatched) enough
    enough s
  rw [Conduct.bodies_ofBodies bodies undispatched settings, run] at evaluates
  have before : s.tally = (entrance.job settings).prepaid s.tally := by
    cases entrance with
    | apply | applyInFrame => rfl
    | force => exact (Tally.plus_suspension _ _ _).symm
  exact evaluates.entered trivial before

/-- What is constructed in a run, less what the bodies have constructed, is a closure for each
application that lacks arguments and a caller for each body that lacks one. -/
theorem constructions_accounted {bodies : Bodies} (undispatched : bodies.Undispatched)
    (settings : Settings) (entrance : Entrance) {s t : Store} {reply : Reply}
    (ends : Ends bodies (fun eval rounds => entrance.run settings eval rounds) s (.ok reply t)) :
    ∃ since, t.journal = since ++ s.journal ∧
      (t.tally.since s.tally).since (.of fun r => since.countP (Entry.creates r)) =
        { closures := .ofNat (since.countP Entry.lacksArguments)
          suspensions := 0
          scopes := 0
          callers := .ofNat (since.countP Entry.lacksCaller) } := by
  obtain ⟨since, entered⟩ := entered undispatched settings entrance ends
  refine ⟨since, entered.journal, ?_⟩
  have all : t.tally.since s.tally = .of (constructed since) :=
    entered.tally ▸ s.tally.plus_since _
  rw [all]
  have own := Tally.of_add_since (fun r => since.countP (Entry.creates r))
    (fun r => since.countP (Entry.requires r))
  refine own.trans ?_
  simp [Tally.of, Entry.requires]

def furnishing : Bodies
  | 0, _ => .ask (.newClosure ⟨"host", 1, none⟩ none (.parameterless .direct .full) [] [])
    fun host => .done (.error (.tailCall ⟨host, []⟩))
  | 1, _ =>
    .ask (.newClosure ⟨"guest", 2, none⟩ none ⟨.direct, .withheld, [.plain 0 "x"], rfl⟩ [] [])
      fun guest => .done (.error (.tailCall ⟨guest, []⟩))
  | _, payload => .done (.ok payload.state)

theorem furnishing_undispatched : Undispatched furnishing := by
  rintro (_ | _ | _) payload
  · exact ⟨trivial, fun _ => trivial⟩
  · exact ⟨trivial, fun _ => trivial⟩
  · trivial

def furnished : Call :=
  ⟨⟨0, ⟨"door", 0, none⟩, none, .parameterless .loop .withheld, [], []⟩, none, .unit, []⟩

theorem furnished_accounted : furnishing.Undispatched ∧ ∃ reply t,
    Ends furnishing (fun eval rounds => (Entrance.apply furnished).run {} eval rounds)
      { tally := { closures := 0xFFFFFFFFFFFFFFFF } } (.ok reply t) ∧
    t.tally = { closures := 2, callers := 1 } ∧
    ∃ since, t.journal = since ++ [] ∧
      (t.tally.since { closures := 0xFFFFFFFFFFFFFFFF }).since
        (.of fun r => since.countP (Entry.creates r)) =
          { closures := .ofNat (since.countP Entry.lacksArguments), suspensions := 0, scopes := 0
            callers := .ofNat (since.countP Entry.lacksCaller) } := by
  have ends : Ends furnishing (fun eval rounds => (Entrance.apply furnished).run {} eval rounds)
      { tally := { closures := 0xFFFFFFFFFFFFFFFF } } (.ok _ _) :=
    .of_fuel (fun le => apply_le (evaluate_le _ le) le _ _)
      (show Machine.apply (evaluate furnishing 9) 9 {} furnished _ = _ from rfl) trivial
  exact ⟨furnishing_undispatched, _, _, ends, rfl,
    constructions_accounted furnishing_undispatched {} (.apply furnished) ends⟩

end Bodies

end Callable
