import Callable.Proofs.Currying.Joined
import Callable.Proofs.Currying.Separated
import Callable.Proofs.Realization

/-! Currying. Where no signature has a default and no body applies anything, it is the same to
apply to all arguments at once and to apply to some of them and what this comes to to the
others, up to the identities of closures. -/

namespace Callable

namespace Machine

/-- Applies a closure, and then its result to more arguments, with the same state. -/
def applyInTurn (eval : Evaluator) (rounds : Nat) (settings : Settings) (call : Call)
    (more : List Value) : Run Reply := do
  match ← apply eval rounds settings call with
  | .error fault => pure (.error fault)
  | .ok (.closure f) => apply eval rounds settings ⟨f, none, call.state, more⟩
  | .ok v => pure (.error (.notAFunction v.typeName))

section

variable {settings : Settings} {c : Conduct} {h : Split} {s t : Store} {o : Outcome Reply}
  {eval : Evaluator} {rounds : Nat}

theorem applyInTurn_of_closure {f : Closure Value}
    (e : apply eval rounds settings h.begin s = .ok (.ok (.closure f)) t) :
    applyInTurn eval rounds settings h.begin h.second s =
      apply eval rounds settings (h.rest f) t :=
  Run.bind_of_ok e

theorem applyInTurn_of_other {v : Value} (other : v.closure? = none)
    (e : apply eval rounds settings h.begin s = .ok (.ok v) t) :
    applyInTurn eval rounds settings h.begin h.second s =
      .ok (.error (.notAFunction v.typeName)) t := by
  refine (Run.bind_of_ok e).trans ?_
  cases v with
  | closure => cases other
  | _ => rfl

theorem applyInTurn_of_stops (stops : o.Stops)
    (e : apply eval rounds settings h.begin s = o) :
    applyInTurn eval rounds settings h.begin h.second s = o := by
  cases o with
  | error halt t => exact Run.bind_of_error e
  | ok reply t =>
    cases reply with
    | error fault => exact Run.bind_of_ok e
    | ok v => exact stops.elim

variable (h) in
theorem evaluates_of_applyInTurn
    (ends : Ends (c.bodies settings) (applyInTurn · · settings h.begin h.second) s o) :
    ∃ hs o₁, Evaluates (.loops settings) c
      (.apply ((Policy.loops settings).own h.state) h.begin) s hs o₁ ∧
        Continued settings c h o₁ o := by
  obtain ⟨n, run⟩ := ends
  have derivable := derivable_evaluate settings c n
  have run : applyInTurn (evaluate (c.bodies settings) n) n settings h.begin h.second s = o :=
    run n (Nat.le_refl _)
  obtain ⟨hs, first⟩ := derivable.apply n h.begin s
  refine ⟨hs, _, first, ?_⟩
  cases e : apply (evaluate (c.bodies settings) n) n settings h.begin s with
  | error halt t =>
    have stops : Outcome.Stops (.error halt t) := trivial
    rw [← run, applyInTurn_of_stops stops e]
    exact .stop stops
  | ok reply t =>
    cases reply with
    | error fault =>
      have stops : Outcome.Stops (.ok (.error fault) t) := trivial
      rw [← run, applyInTurn_of_stops stops e]
      exact .stop stops
    | ok v =>
      cases closure : v.closure? with
      | none =>
        rw [← run, applyInTurn_of_other closure e]
        exact .other closure
      | some f =>
        cases Value.eq_closure_of_closure? closure
        obtain ⟨hs', applied⟩ := derivable.apply n (h.rest f) t
        rw [← run, applyInTurn_of_closure e]
        exact .closure applied

theorem ends_of_continued (finished : o.Finished) {hs o₁}
    (first : Evaluates (.loops settings) c
      (.apply ((Policy.loops settings).own h.state) h.begin) s hs o₁)
    (continued : Continued settings c h o₁ o) :
    Ends (c.bodies settings) (applyInTurn · · settings h.begin h.second) s o := by
  have ends (finished₁ : o₁.Finished) :
      Ends (c.bodies settings) (apply · · settings h.begin) s o₁ :=
    (ends_apply_iff finished₁).mpr ⟨hs, first⟩
  cases continued with
  | stop stops =>
    obtain ⟨n, run⟩ := ends finished
    exact ⟨n, fun fuel enough => applyInTurn_of_stops stops (run fuel enough)⟩
  | other other =>
    obtain ⟨n, run⟩ := ends (Outcome.finished_ok _ _)
    exact ⟨n, fun fuel enough => applyInTurn_of_other other (run fuel enough)⟩
  | @closure f _ hs' _ applied =>
    obtain ⟨m, run⟩ := ends (Outcome.finished_ok _ _)
    have ends' : Ends (c.bodies settings) (apply · · settings (h.rest f)) _ o :=
      (ends_apply_iff finished).mpr ⟨hs', applied⟩
    obtain ⟨n, run'⟩ := ends'
    exact ⟨max m n, fun fuel enough => (applyInTurn_of_closure (run fuel (by omega))).trans
      (run' fuel (by omega))⟩

end

end Machine

namespace Bodies

/-- Bodies that do the same whatever the identities, and bring about no defaults. -/
def Blind (bodies : Bodies) : Prop := ∀ label {p p'}, Likeness.upToIdentities.payload p p' →
  Likeness.upToIdentities.program True Likeness.upToIdentities.reply (bodies label p)
    (bodies label p')

theorem Blind.conducts {bodies : Bodies} (blind : Blind bodies)
    (undispatched : Undispatched bodies) (settings : Settings) :
    (Policy.loopsLoops Likeness.upToIdentities settings).Conducts
      (.ofBodies bodies undispatched) (.ofBodies bodies undispatched) := fun label _ _ payloads =>
  (blind label payloads).bind fun _ _ replies => .done (.reply replies)

/-- It is the same to apply a closure to all arguments at once and to apply it to some of them
and the result to the others, and one comes to an end exactly if the other does. -/
theorem apply_append {bodies : Bodies} (undispatched : Undispatched bodies)
    (blind : Blind bodies) (settings : Settings) {f : Closure Value} {state : Value}
    {a b : List Value} (hf : Likeness.upToIdentities.closure f f)
    (hstate : Likeness.upToIdentities.value state state)
    (ha : ∀ v ∈ a, Likeness.upToIdentities.value v v)
    (hb : ∀ v ∈ b, Likeness.upToIdentities.value v v) (more : b ≠ []) (s : Store) :
    (∀ o, o.Finished → Ends bodies (Machine.apply · · settings ⟨f, none, state, a ++ b⟩) s o →
      ∃ o', o'.Finished ∧
        Ends bodies (Machine.applyInTurn · · settings ⟨f, none, state, a⟩ b) s o' ∧
        Likeness.upToIdentities.outcome s.invocations s.invocations o o') ∧
    ∀ o, o.Finished → Ends bodies (Machine.applyInTurn · · settings ⟨f, none, state, a⟩ b) s o →
      ∃ o', o'.Finished ∧ Ends bodies (Machine.apply · · settings ⟨f, none, state, a ++ b⟩) s o' ∧
        Likeness.upToIdentities.outcome s.invocations s.invocations o o' := by
  have conducts := blind.conducts undispatched settings
  have alike : Likeness.upToIdentities.split ⟨f, state, a, b⟩ ⟨f, state, a, b⟩ :=
    ⟨hf, hstate, List.forall₂_same.mpr ha, List.forall₂_same.mpr hb, more⟩
  have stores : Likeness.upToIdentities.store s.invocations s.invocations s s :=
    .start fun _ => trivial
  rw [← Conduct.bodies_ofBodies bodies undispatched settings]
  refine ⟨fun o finished ends => ?_, fun o finished ends => ?_⟩
  · obtain ⟨hs, whole⟩ := (Machine.ends_apply_iff finished).mp ends
    obtain ⟨_, o₁, o', first, continued, outcomes⟩ :=
      Separated.of_whole conducts alike whole stores
    have finished' := outcomes.finished finished
    exact ⟨o', finished', Machine.ends_of_continued finished' first continued, outcomes⟩
  · obtain ⟨hs, o₁, first, continued⟩ := Machine.evaluates_of_applyInTurn ⟨f, state, a, b⟩ ends
    obtain ⟨hs', o', whole, outcomes⟩ := Joined.of_continued conducts alike first continued stores
    have finished' := outcomes.finished finished
    exact ⟨o', finished', (Machine.ends_apply_iff finished').mpr ⟨hs', whole⟩, outcomes⟩

def collecting : Bodies
  | 0, _ => .ask (.newClosure ⟨"collect", 1, none⟩ none
      ⟨.direct, .withheld, [.plain 0 "x", .plain 1 "y"], by decide⟩ [] [])
    fun f => .done (.ok (.closure f))
  | _, payload => .done (.ok (.array payload.arguments))

theorem collecting_undispatched : Undispatched collecting := fun label _ =>
  match label with
  | 0 => ⟨trivial, fun _ => trivial⟩
  | _ + 1 => trivial

theorem collecting_blind : Blind collecting := by
  intro label p p' payloads
  match label with
  | 0 =>
    have defaultless : Signature.Defaultless
        ⟨.direct, .withheld, [.plain 0 "x", .plain 1 "y"], by decide⟩ := by
      simp [Signature.Defaultless, Parameter.plain]
    refine .ask (.newClosure .none ⟨rfl, defaultless⟩ .nil .nil) ?_
    rintro _ _ ⟨i, i', _, rfl, rfl⟩
    exact .done (.ok (.closure (.mk trivial .none ⟨rfl, defaultless⟩ .nil .nil)))
  | _ + 1 => exact .done (.ok (.array payloads.arguments))

def collector : Closure Value :=
  ⟨0, ⟨"collector", 0, none⟩, none, ⟨.loop, .withheld, [.plain 0 "z"], by decide⟩, [], []⟩

theorem collector_run : ∃ t, Machine.apply (Machine.evaluate collecting 9) 9 {}
    ⟨collector, none, .unit, [.integer 1, .integer 2, .integer 3]⟩ {} =
      .ok (.ok (.array [.integer 2, .integer 3])) t :=
  ⟨_, rfl⟩

theorem collector_in_turn :
    (Undispatched collecting ∧ Blind collecting ∧
      Likeness.upToIdentities.closure collector collector ∧
      Likeness.upToIdentities.value .unit .unit ∧
      (∀ v ∈ [Value.integer 1, .integer 2], Likeness.upToIdentities.value v v) ∧
      (∀ v ∈ [Value.integer 3], Likeness.upToIdentities.value v v) ∧
      [Value.integer 3] ≠ []) ∧
    ∃ t, Ends collecting (Machine.applyInTurn · · {}
      ⟨collector, none, .unit, [.integer 1, .integer 2]⟩ [.integer 3]) {}
        (.ok (.ok (.array [.integer 2, .integer 3])) t) := by
  have hf : Likeness.upToIdentities.closure collector collector :=
    .mk trivial .none ⟨rfl, by simp [Signature.Defaultless, Parameter.plain]⟩ .nil .nil
  have ha : ∀ v ∈ [Value.integer 1, .integer 2], Likeness.upToIdentities.value v v := by
    simpa using ⟨.integer 1, .integer 2⟩
  have hb : ∀ v ∈ [Value.integer 3], Likeness.upToIdentities.value v v := by
    simpa using .integer 3
  have hstate : Likeness.upToIdentities.value .unit .unit := .unit
  refine ⟨⟨collecting_undispatched, collecting_blind, hf, hstate, ha, hb, by simp⟩, ?_⟩
  obtain ⟨t, run⟩ := collector_run
  have ends : Ends collecting (Machine.apply · · {}
      ⟨collector, none, .unit, [.integer 1, .integer 2] ++ [.integer 3]⟩) {}
      (.ok (.ok (.array [.integer 2, .integer 3])) t) :=
    .of_fuel (fun le => Machine.apply_le (Machine.evaluate_le _ le) le _ _) run trivial
  obtain ⟨o', finished, ends', outcomes⟩ := (apply_append collecting_undispatched
    collecting_blind {} hf hstate ha hb (by simp) {}).1 _ (Outcome.finished_ok _ _) ends
  cases outcomes with
  | @ok _ r' _ t' replies stores =>
    cases replies with
    | ok values =>
    cases values with
    | array items =>
      obtain ⟨_, _, two, others, rfl⟩ := List.forall₂_cons_left_iff.mp items
      obtain ⟨_, _, three, none_left, rfl⟩ := List.forall₂_cons_left_iff.mp others
      cases two
      cases three
      cases none_left
      exact ⟨t', ends'⟩

end Bodies

end Callable
