import Callable.Proofs.Currying.Joined

/-! From the application to all arguments to the application to some of them, and of what this
comes to to the others. -/

namespace Callable

section

variable {settings : Settings} {c : Conduct} {base base' : List (Callee × Payload)}
  (conducts : (Policy.loopsLoops Likeness.upToIdentities settings).Conducts c c)

def Separated (settings : Settings) (c : Conduct) (base base' : List (Callee × Payload))
    (h : Split) (s : Store) (o : Outcome Reply) : Prop :=
  ∃ hs' o₁ o', Evaluates (.loops settings) c
    (.apply ((Policy.loops settings).own h.state) h.begin) s hs' o₁ ∧
      Continued settings c h o₁ o' ∧ Likeness.upToIdentities.outcome base base' o o'

namespace Separated

variable {h h' : Split} {s s' t : Store} (alike : Likeness.upToIdentities.split h h')
  (stores : Likeness.upToIdentities.store base base' s s')

include conducts alike stores

theorem of_unsaturated (unsaturated : h.begin.isSaturated = false) {hs o}
    (whole : Evaluates (.loops settings) c
      (.apply ((Policy.loops settings).own h.state) h.whole) s hs o) :
    Separated settings c base base' h' s' o := by
  have unsaturated' : h'.begin.isSaturated = false :=
    alike.begin.applied.isSaturated Likeness.upToIdentities_lawful ▸ unsaturated
  obtain ⟨i, t', bound, invocations⟩ := Machine.bindSupplied_invocations unsaturated'
    (s'.log ((Policy.loops settings).announce h'.begin))
  rw [Store.invocations_log_of_quiet (Policy.loops_announce_quiet _ _)] at invocations
  have jobs : (Policy.loopsLoops Likeness.upToIdentities settings).job
      (.apply ((Policy.loops settings).own h.state) h.whole)
      (.apply ((Policy.loops settings).own h'.state) (h'.rest (h'.begin.rebound i))) :=
    .apply (.some ⟨alike.state, rfl⟩) (Likeness.upToIdentities.whole_rebound alike i)
  obtain ⟨hs', o', applied, outcomes⟩ := whole.simulate Likeness.upToIdentities_lawful conducts
    jobs (Likeness.upToIdentities_store stores rfl invocations)
  exact ⟨[], _, o', .bind unsaturated' bound, .closure applied, outcomes⟩

variable (saturated : h.begin.isSaturated = true)
  {hs : List (Handover (Policy.loops settings).Context)}

include saturated

theorem excessStop {o : Outcome Reply}
    (run : Ran settings c h.whole s hs o) (stops : o.Stops) :
    Separated settings c base base' h' s' o := by
  have saturated' := Likeness.upToIdentities.begin_isSaturated alike saturated
  obtain ⟨hs', o', run', outcomes⟩ := run.begin conducts alike saturated stores
  have stops' := outcomes.stops stops
  by_cases left : h'.begin.surplus = []
  · exact ⟨hs', o', o', .exact saturated' left run', .stop stops', outcomes⟩
  · exact ⟨hs', o', o', .excessStop saturated' left run' stops', .stop stops', outcomes⟩

theorem excessOther {v : Value} {entries : List Entry}
    (run : Ran settings c h.whole s hs (.ok (.ok v) t))
    (other : v.closure? = none) (quiet : Quiet entries) :
    Separated settings c base base' h' s' (.ok (.error (.notAFunction v.typeName))
      (t.log entries)) := by
  have saturated' := Likeness.upToIdentities.begin_isSaturated alike saturated
  obtain ⟨hs', o', run', outcomes⟩ := run.begin conducts alike saturated stores
  obtain ⟨v', t', rfl, values, stores'⟩ := outcomes.of_value
  have other' := Likeness.upToIdentities_lawful.other_of_value values other
  have fault : Likeness.upToIdentities.reply (.error (.notAFunction v.typeName))
      (.error (.notAFunction v'.typeName)) := by
    rw [Likeness.upToIdentities_lawful.typeName values]
    exact .error (.settled (Settled.notAFunction _))
  by_cases left : h'.begin.surplus = []
  · exact ⟨hs', _, _, .exact saturated' left run', .other other', .ok fault
      (stores'.log quiet .nil)⟩
  · exact ⟨hs', _, _, .excessOther saturated' left run' other', .stop trivial, .ok fault
      (stores'.log quiet (.surplus _ _))⟩

theorem excess {f : Closure Value} {o : Outcome Reply} {hs'}
    (run : Ran settings c h.whole s hs (.ok (.ok (.closure f)) t))
    (surplus : Evaluates (.loops settings) c (.apply ((Policy.loops settings).own h.state)
      (h.onward f).whole) (t.log [.event (.surplus h.closure.name h.whole.surplus.length)]) hs' o)
    (separated : ∀ f' t', Likeness.upToIdentities.closure f f' →
      Likeness.upToIdentities.store base base' (t.log [.event (.surplus h.closure.name
        h.whole.surplus.length)]) t' →
      Separated settings c base base' (h'.onward f') t' o) :
    Separated settings c base base' h' s' o := by
  have saturated' := Likeness.upToIdentities.begin_isSaturated alike saturated
  obtain ⟨hs', o', run', outcomes⟩ := run.begin conducts alike saturated stores
  obtain ⟨v', t', rfl, values, stores'⟩ := outcomes.of_value
  obtain ⟨f', rfl, closures⟩ := Likeness.upToIdentities_lawful.closure_of_value values
  by_cases left : h'.begin.surplus = []
  · have none_left : h.begin.surplus = [] := List.forall₂_nil_right_iff.mp
      (left ▸ alike.begin.applied.surplus Likeness.upToIdentities_lawful)
    have same : (h.onward f).whole = h.rest f := by
      simp only [Split.whole, Split.onward, Split.rest, none_left, List.nil_append]
    rw [same] at surplus
    have jobs : (Policy.loopsLoops Likeness.upToIdentities settings).job
        (.apply ((Policy.loops settings).own h.state) (h.rest f))
        (.apply ((Policy.loops settings).own h'.state) (h'.rest f')) :=
      .apply (.some ⟨alike.state, rfl⟩) (alike.rest closures).applied
    obtain ⟨hs'', o'', applied, outcomes⟩ := surplus.simulate Likeness.upToIdentities_lawful
      conducts jobs (stores'.log (.surplus _ _) .nil)
    exact ⟨hs', _, o'', .exact saturated' left run', .closure applied, outcomes⟩
  · obtain ⟨hs'', o₁, o'', first, continued, outcomes⟩ := separated f'
      (t'.log [.event (.surplus h'.closure.name h'.begin.surplus.length)]) closures
      (stores'.log (.surplus _ _) (.surplus _ _))
    exact ⟨hs' ++ hs'', o₁, o'', .excess saturated' left run' first,
      Continued.onward_iff.mp continued, outcomes⟩

end Separated

include conducts

theorem Separated.of_saturated {h h' : Split} (alike : Likeness.upToIdentities.split h h')
    (saturated : h.begin.isSaturated = true) {s s' : Store} {hs o}
    (whole : Evaluates (.loops settings) c
      (.apply ((Policy.loops settings).own h.state) h.whole) s hs o)
    (stores : Likeness.upToIdentities.store base base' s s') :
    Separated settings c base base' h' s' o := by
  generalize job_eq : Job.apply ((Policy.loops settings).own h.state) h.whole = job at whole
  have enough := (Likeness.upToIdentities.enough_iff alike).mp saturated
  -- the split moves on to the result of the body, until the first arguments are too few
  induction whole generalizing h h' s' with
  | cut => exact ⟨[], _, _, .cut, .stop trivial, .error stores⟩
  | bind unsaturated bound =>
    cases job_eq
    rw [Split.whole_isSaturated enough] at unsaturated
    cases unsaturated
  | exact _ none_left run _ =>
    cases job_eq
    exact absurd none_left (Split.whole_left enough alike.more)
  | excessStop _ _ run stops _ =>
    cases job_eq
    exact excessStop conducts alike stores saturated run stops
  | @excess _ _ _ _ _ f _ _ _ _ run surplus _ ih =>
    cases job_eq
    have same : (h.onward f).whole = ⟨f, none, h.whole.state, h.whole.surplus⟩ := by
      rw [Split.whole_surplus enough]
      rfl
    refine excess conducts alike stores saturated run (same ▸ surplus) ?_
    intro f' t' closures stores'
    have onward := alike.onward Likeness.upToIdentities_lawful closures
    cases again : (h.onward f).begin.isSaturated with
    | false => exact of_unsaturated conducts onward stores' again (same ▸ surplus)
    | true =>
      refine ih onward again stores' ?_ ((Likeness.upToIdentities.enough_iff onward).mp again)
      rw [same]
      rfl
  | excessOther _ _ run other _ =>
    cases job_eq
    exact excessOther conducts alike stores saturated run other (.surplus _ _)
  | _ => cases job_eq

theorem Separated.of_whole {h h' : Split} (alike : Likeness.upToIdentities.split h h')
    {s s' : Store} {hs o}
    (whole : Evaluates (.loops settings) c
      (.apply ((Policy.loops settings).own h.state) h.whole) s hs o)
    (stores : Likeness.upToIdentities.store base base' s s') :
    Separated settings c base base' h' s' o := by
  cases saturated : h.begin.isSaturated with
  | false => exact of_unsaturated conducts alike stores saturated whole
  | true => exact of_saturated conducts alike saturated whole stores

end

end Callable
