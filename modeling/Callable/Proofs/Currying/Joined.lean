import Callable.Proofs.Currying.Split

/-! From the application to some arguments, and of what this comes to to the others, to the
application to all of them. -/

namespace Callable

/-- How an application goes on with the outcome of another one, which it applies. -/
inductive Continued (settings : Settings) (c : Conduct) (h : Split) :
    Outcome Reply → Outcome Reply → Prop where
  | stop {o} (stops : o.Stops) : Continued settings c h o o
  | closure {f t hs o} (applied : Evaluates (.loops settings) c
      (.apply ((Policy.loops settings).own h.state) (h.rest f)) t hs o) :
      Continued settings c h (.ok (.ok (.closure f)) t) o
  | other {v t} (other : v.closure? = none) :
      Continued settings c h (.ok (.ok v) t) (.ok (.error (.notAFunction v.typeName)) t)

section

variable {settings : Settings} {c : Conduct} {base base' : List (Callee × Payload)}
  (conducts : (Policy.loopsLoops Likeness.upToIdentities settings).Conducts c c)

theorem Continued.onward_iff {h : Split} {f : Closure Value} {o o' : Outcome Reply} :
    Continued settings c (h.onward f) o o' ↔ Continued settings c h o o' := by
  constructor
  · rintro (stops | applied | other)
    · exact .stop stops
    · exact .closure applied
    · exact .other other
  · rintro (stops | applied | other)
    · exact .stop stops
    · exact .closure applied
    · exact .other other

theorem Continued.of_stops {h : Split} {o o' : Outcome Reply}
    (continued : Continued settings c h o o') (stops : o.Stops) : o' = o := by
  cases continued with
  | stop => rfl
  | closure | other => exact stops.elim

def Joined (settings : Settings) (c : Conduct) (base base' : List (Callee × Payload)) (h : Split)
    (s : Store) (o : Outcome Reply) : Prop :=
  ∃ hs' o', Evaluates (.loops settings) c
    (.apply ((Policy.loops settings).own h.state) h.whole) s hs' o' ∧
      Likeness.upToIdentities.outcome base base' o o'

namespace Joined

variable {h h' : Split} {s s' t : Store}

include conducts

theorem of_applied {call : Call} {hs o} (calls : Likeness.upToIdentities.applied call h.whole)
    (stores : Likeness.upToIdentities.store base base' s s')
    (applied : Evaluates (.loops settings) c
      (.apply ((Policy.loops settings).own call.state) call) s hs o) :
    Joined settings c base base' h s' o := by
  have jobs : (Policy.loopsLoops Likeness.upToIdentities settings).job
      (.apply ((Policy.loops settings).own call.state) call)
      (.apply ((Policy.loops settings).own h.state) h.whole) :=
    .apply (.some ⟨calls.running.frame.state, rfl⟩) calls
  exact applied.simulate Likeness.upToIdentities_lawful conducts jobs stores

variable (alike : Likeness.upToIdentities.split h h')
  (stores : Likeness.upToIdentities.store base base' s s')

include alike stores

variable (saturated : h.begin.isSaturated = true)
  {hs : List (Handover (Policy.loops settings).Context)}

include saturated

theorem excessStop {o : Outcome Reply}
    (run : Ran settings c h.begin s hs o) (stops : o.Stops) :
    Joined settings c base base' h' s' o := by
  obtain ⟨hs', o', run', outcomes⟩ := run.whole conducts alike saturated stores
  exact ⟨hs', o', .excessStop (Likeness.upToIdentities.whole_isSaturated alike saturated)
    (Likeness.upToIdentities.whole_left alike saturated) run' (outcomes.stops stops), outcomes⟩

theorem excessOther {v : Value}
    (run : Ran settings c h.begin s hs (.ok (.ok v) t))
    (other : v.closure? = none) {entries : List Entry} (quiet : Quiet entries) :
    Joined settings c base base' h' s' (.ok (.error (.notAFunction v.typeName))
      (t.log entries)) := by
  obtain ⟨hs', o', run', outcomes⟩ := run.whole conducts alike saturated stores
  obtain ⟨v', t', rfl, values, stores'⟩ := outcomes.of_value
  refine ⟨hs', _, .excessOther (Likeness.upToIdentities.whole_isSaturated alike saturated)
    (Likeness.upToIdentities.whole_left alike saturated) run'
    (Likeness.upToIdentities_lawful.other_of_value values other), ?_⟩
  rw [Likeness.upToIdentities_lawful.typeName values]
  exact .ok (.error (.settled (Settled.notAFunction _))) (stores'.log quiet (.surplus _ _))

theorem excess {f : Closure Value} {o : Outcome Reply}
    (run : Ran settings c h.begin s hs (.ok (.ok (.closure f)) t))
    (surplus : ∀ f' t', Likeness.upToIdentities.closure f f' →
      Likeness.upToIdentities.store base base' t t' →
      Joined settings c base base' (h'.onward f') (t'.log
        [.event (.surplus h'.closure.name h'.whole.surplus.length)]) o) :
    Joined settings c base base' h' s' o := by
  obtain ⟨hs', o', run', outcomes⟩ := run.whole conducts alike saturated stores
  obtain ⟨v', t', rfl, values, stores'⟩ := outcomes.of_value
  obtain ⟨f', rfl, closures⟩ := Likeness.upToIdentities_lawful.closure_of_value values
  obtain ⟨hs'', o'', applied, outcomes⟩ := surplus f' t' closures stores'
  have same : (h'.onward f').whole = ⟨f', none, h'.whole.state, h'.whole.surplus⟩ := by
    rw [Split.whole_surplus (Likeness.upToIdentities.enough' alike saturated)]
    rfl
  rw [same] at applied
  exact ⟨hs' ++ hs'', o'', .excess (Likeness.upToIdentities.whole_isSaturated alike saturated)
    (Likeness.upToIdentities.whole_left alike saturated) run' applied, outcomes⟩

end Joined

include conducts

theorem Joined.of_continued {h h' : Split} (alike : Likeness.upToIdentities.split h h')
    {s s' : Store} {hs o o₁}
    (first : Evaluates (.loops settings) c
      (.apply ((Policy.loops settings).own h.state) h.begin) s hs o₁)
    (continued : Continued settings c h o₁ o)
    (stores : Likeness.upToIdentities.store base base' s s') :
    Joined settings c base base' h' s' o := by
  generalize job_eq : Job.apply ((Policy.loops settings).own h.state) h.begin = job at first
  -- where the first application has a surplus, the split moves on to the result of its body
  induction first generalizing h h' s' o with
  | cut =>
    obtain ⟨_⟩ := continued
    exact ⟨[], _, .cut, .error stores⟩
  | bind unsaturated bound =>
    cases job_eq
    rw [Machine.bindSupplied_of_unsaturated unsaturated] at bound
    subst bound
    cases continued with
    | stop stops => exact stops.elim
    | other other => cases other
    | closure applied =>
      refine Joined.of_applied conducts (Likeness.upToIdentities.rebound_whole alike _) ?_ applied
      exact Likeness.upToIdentities_store stores
        (Store.invocations_log_of_quiet (Policy.loops_announce_quiet settings _)) rfl
  | exact saturated none_left run _ =>
    cases job_eq
    cases continued with
    | stop stops => exact excessStop conducts alike stores saturated run stops
    | other other => exact excessOther conducts alike stores saturated run other .nil
    | closure applied =>
      refine excess conducts alike stores saturated run fun f' t' closures stores' => ?_
      have none_left' : h'.begin.surplus = [] := List.forall₂_nil_left_iff.mp
        (none_left ▸ alike.begin.applied.surplus Likeness.upToIdentities_lawful)
      have same : (h'.onward f').whole = h'.rest f' := by
        simp only [Split.whole, Split.onward, Split.rest, none_left', List.nil_append]
      have logged := stores'.log .nil (Quiet.surplus h'.closure.name h'.whole.surplus.length)
      exact of_applied conducts (same ▸ (alike.rest closures).applied) logged applied
  | excessStop saturated left run stops _ =>
    cases job_eq
    rw [continued.of_stops stops]
    exact excessStop conducts alike stores saturated run stops
  | excess saturated left run _ _ surplus =>
    cases job_eq
    refine excess conducts alike stores saturated run fun f' t' closures stores' => ?_
    have onward := alike.onward Likeness.upToIdentities_lawful closures
    exact surplus onward (Continued.onward_iff.mpr continued)
      (stores'.log (.surplus _ _) (.surplus _ _)) rfl
  | excessOther saturated left run other _ =>
    cases job_eq
    rw [continued.of_stops trivial]
    exact excessOther conducts alike stores saturated run other (.surplus _ _)
  | _ => cases job_eq

end

end Callable
