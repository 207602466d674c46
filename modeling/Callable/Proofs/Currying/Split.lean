import Callable.Proofs.Likeness.Instances
import Callable.Proofs.Simulation

/-! Splits of the arguments of an application, up to the identities of closures. If the first
part already saturates the closure, the body has the same arguments as in the application to
all of them, and the rest of these is surplus. -/

namespace Callable

open List (Forall₂)

namespace Signature

def Defaultless (g : Signature) : Prop := ∀ p ∈ g.parameters, p.hasDefault = false

theorem Defaultless.isSaturatedBy_iff {g : Signature} (h : g.Defaultless) {n : Nat} :
    g.isSaturatedBy n = true ↔ g.arity ≤ n := by
  refine ⟨fun saturated => ?_, isSaturatedBy_of_arity_le⟩
  by_contra short
  obtain ⟨p, hp⟩ : ∃ p, p ∈ g.parameters.drop n :=
    List.exists_mem_of_length_pos (by
    rw [List.length_drop]
    exact Nat.sub_pos_of_lt (Nat.lt_of_not_le short))
  have has_default := List.all_eq_true.mp saturated p hp
  rw [h p (List.mem_of_mem_drop hp)] at has_default
  cases has_default

end Signature

namespace Likeness

/-- All is the same but for identities, and no signature has a default. What is like itself has
no signature with a default in it. -/
def upToIdentities : Likeness :=
  upTo (fun _ _ => True) (fun g g' => g = g' ∧ g.Defaultless) False

theorem upToIdentities_lawful : upToIdentities.Lawful :=
  upTo_lawful fun h => by rw [h.1]; exact ⟨rfl, rfl⟩

theorem upToIdentities_store {base base' : List (Callee × Payload)} {s s' t t' : Store}
    (h : upToIdentities.store base base' s s') (hi : t.invocations = s.invocations)
    (hi' : t'.invocations = s'.invocations) : upToIdentities.store base base' t t' :=
  ⟨fun _ => trivial, by rw [hi, hi']; exact h.invocations⟩

end Likeness

namespace Policy

variable {L : Likeness} {settings : Settings}

def loopsLoops (L : Likeness) (settings : Settings) :
    Correspondence L (loops settings) (loops settings) where
  context x x' _ _ :=
    Option.Rel (fun l l' => L.value l.state l'.state ∧ l.performed = l'.performed) x x'
  asides := True
  frames _ _ _ _ := False
  own h := .some ⟨h, rfl⟩
  back _ _ _ := .none
  inFrame _ := False.elim
  announce := loops_announce_quiet settings
  announce' := loops_announce_quiet settings
  enter := loops_enter_quiet settings
  enter' := loops_enter_quiet settings
  turn := by
    rintro x x' p p' q q' contexts payloads requests
    cases contexts with
    | none => exact .refuse (.tailCall requests)
    | @some l l' h =>
      cases exceeded : settings.exceeded? (l.performed.getD 0 + 1) with
      | some limit =>
        rw [loops_turn_of_exceeded exceeded, loops_turn_of_exceeded (h.2 ▸ exceeded)]
        exact .refuse (.settled (Settled.loopLimit limit))
      | none =>
        rw [loops_turn_of_within exceeded, loops_turn_of_within (h.2 ▸ exceeded)]
        exact .next h.1 (.some ⟨h.1, by rw [h.2]⟩)

end Policy

/-- An application to some arguments, and to more of them. -/
structure Split where
  closure : Closure Value
  state : Value
  first : List Value
  second : List Value

namespace Split

def begin (h : Split) : Call := ⟨h.closure, none, h.state, h.first⟩

def whole (h : Split) : Call := ⟨h.closure, none, h.state, h.first ++ h.second⟩

def rest (h : Split) (f : Closure Value) : Call := ⟨f, none, h.state, h.second⟩

/-- The split application of the result of the body to the surplus. -/
def onward (h : Split) (f : Closure Value) : Split :=
  ⟨f, h.state, h.begin.surplus, h.second⟩

variable {h : Split}

theorem whole_supplied : h.whole.supplied = h.begin.supplied ++ h.second :=
  (List.append_assoc _ _ _).symm

theorem whole_positional (enough : h.closure.arity ≤ h.begin.supplied.length) :
    h.whole.positional = h.begin.positional := by
  unfold Call.positional
  rw [whole_supplied]
  exact List.take_append_of_le_length enough

theorem whole_surplus (enough : h.closure.arity ≤ h.begin.supplied.length) :
    h.whole.surplus = h.begin.surplus ++ h.second := by
  unfold Call.surplus
  rw [whole_supplied]
  have dropped : (h.begin.supplied ++ h.second).drop h.closure.arity =
      h.begin.supplied.drop h.closure.arity ++ h.second := List.drop_append_of_le_length enough
  rw [show h.whole.closure.arity = h.closure.arity from rfl, dropped, List.append_assoc]
  rfl

theorem whole_isSaturated (enough : h.closure.arity ≤ h.begin.supplied.length) :
    h.whole.isSaturated = true := by
  refine Signature.isSaturatedBy_of_arity_le ?_
  rw [whole_supplied, List.length_append]
  exact Nat.le_add_right_of_le enough

theorem whole_left (enough : h.closure.arity ≤ h.begin.supplied.length) (more : h.second ≠ []) :
    h.whole.surplus ≠ [] := by
  rw [whole_surplus enough]
  exact fun none_left => more (List.append_eq_nil_iff.mp none_left).2

end Split

namespace Likeness

structure split (L : Likeness) (h h' : Split) : Prop where
  closure : L.closure h.closure h'.closure
  state : L.value h.state h'.state
  first : Forall₂ L.value h.first h'.first
  second : Forall₂ L.value h.second h'.second
  more : h.second ≠ []

namespace split

variable {L : Likeness} {h h' : Split} (alike : L.split h h')

include alike

theorem begin : L.call h.begin h'.begin :=
  ⟨alike.closure, .none, alike.state, alike.first⟩

theorem frame {a a' : List Value} :
    L.frame ⟨h.closure, none, h.state, a⟩ ⟨h'.closure, none, h'.state, a'⟩ :=
  ⟨alike.closure.targets, alike.closure.scopes, alike.closure.signatures, .none, alike.state⟩

theorem rest {f f' : Closure Value} (hf : L.closure f f') : L.call (h.rest f) (h'.rest f') :=
  ⟨hf, .none, alike.state, alike.second⟩

theorem onward (lawful : L.Lawful) {f f' : Closure Value} (hf : L.closure f f') :
    L.split (h.onward f) (h'.onward f') :=
  ⟨hf, alike.state, alike.begin.applied.surplus lawful, alike.second, alike.more⟩

end split

namespace upToIdentities

variable {h h' : Split} (alike : upToIdentities.split h h')

include alike

theorem enough_iff : h.begin.isSaturated = true ↔ h.closure.arity ≤ h.begin.supplied.length :=
  alike.closure.signatures.2.isSaturatedBy_iff

theorem enough' (saturated : h.begin.isSaturated = true) :
    h'.closure.arity ≤ h'.begin.supplied.length := by
  have arity : h.closure.arity = h'.closure.arity :=
    congrArg Signature.arity alike.closure.signatures.1
  rw [← arity, ← alike.begin.applied.supplied.length_eq]
  exact (enough_iff alike).mp saturated

theorem begin_isSaturated (saturated : h.begin.isSaturated = true) :
    h'.begin.isSaturated = true :=
  alike.begin.applied.isSaturated upToIdentities_lawful ▸ saturated

theorem whole_isSaturated (saturated : h.begin.isSaturated = true) :
    h'.whole.isSaturated = true :=
  Split.whole_isSaturated (enough' alike saturated)

theorem whole_left (saturated : h.begin.isSaturated = true) : h'.whole.surplus ≠ [] := by
  refine Split.whole_left (enough' alike saturated) fun none_left => ?_
  have second := alike.second
  rw [none_left] at second
  exact alike.more (List.forall₂_nil_right_iff.mp second)

theorem rebound_whole (i : Nat) : upToIdentities.applied (h.rest (h.begin.rebound i)) h'.whole where
  running := ⟨⟨alike.closure.targets, alike.closure.scopes, alike.closure.signatures, .none,
    alike.state⟩, False.elim⟩
  supplied := by
    rw [Split.whole_supplied]
    exact List.rel_append alike.begin.applied.supplied alike.second
  carried := alike.closure.carries

theorem whole_rebound (i : Nat) :
    upToIdentities.applied h.whole (h'.rest (h'.begin.rebound i)) where
  running := ⟨⟨alike.closure.targets, alike.closure.scopes, alike.closure.signatures, .none,
    alike.state⟩, False.elim⟩
  supplied := by
    rw [Split.whole_supplied]
    exact List.rel_append alike.begin.applied.supplied alike.second
  carried := alike.closure.carries

end upToIdentities

end Likeness

def Ran (settings : Settings) (c : Conduct) (call : Call) (s : Store)
    (hs : List (Handover (Policy.loops settings).Context)) (o : Outcome Reply) : Prop :=
  Evaluates (.loops settings) c
    (.run ((Policy.loops settings).own call.state) call [] call.closure.signature.parameters
      call.positional) (s.log ((Policy.loops settings).announce call)) hs o

namespace Ran

variable {settings : Settings} {c : Conduct} {base base' : List (Callee × Payload)}
  (conducts : (Policy.loopsLoops Likeness.upToIdentities settings).Conducts c c)
  {s s' : Store} {hs : List (Handover (Policy.loops settings).Context)} {o : Outcome Reply}

include conducts

theorem simulate {call call' : Call} (run : Ran settings c call s hs o)
    (frames : Likeness.upToIdentities.frame call call')
    (positional : Forall₂ Likeness.upToIdentities.value call.positional call'.positional)
    (stores : Likeness.upToIdentities.store base base' s s') :
    ∃ hs' o', Ran settings c call' s' hs' o' ∧ Likeness.upToIdentities.outcome base base' o o' := by
  have parameters : call.closure.signature.parameters = call'.closure.signature.parameters :=
    Likeness.upToIdentities_lawful.parameters frames.signature
  have jobs : (Policy.loopsLoops Likeness.upToIdentities settings).job
      (.run ((Policy.loops settings).own call.state) call [] call.closure.signature.parameters
        call.positional)
      (.run ((Policy.loops settings).own call'.state) call' []
        call'.closure.signature.parameters call'.positional) := by
    rw [parameters]
    exact .run (.some ⟨frames.state, rfl⟩) ⟨frames, False.elim⟩ .nil positional
  exact Evaluates.simulate Likeness.upToIdentities_lawful conducts run jobs
    (stores.log (Policy.loops_announce_quiet _ _) (Policy.loops_announce_quiet _ _))

variable {h h' : Split} (alike : Likeness.upToIdentities.split h h')
  (saturated : h.begin.isSaturated = true)
  (stores : Likeness.upToIdentities.store base base' s s')

include alike saturated stores

theorem whole (run : Ran settings c h.begin s hs o) :
    ∃ hs' o', Ran settings c h'.whole s' hs' o' ∧
      Likeness.upToIdentities.outcome base base' o o' := by
  refine run.simulate conducts alike.frame ?_ stores
  rw [Split.whole_positional (Likeness.upToIdentities.enough' alike saturated)]
  exact alike.begin.applied.positional Likeness.upToIdentities_lawful

theorem begin (run : Ran settings c h.whole s hs o) :
    ∃ hs' o', Ran settings c h'.begin s' hs' o' ∧
      Likeness.upToIdentities.outcome base base' o o' := by
  refine run.simulate conducts alike.frame ?_ stores
  rw [Split.whole_positional ((Likeness.upToIdentities.enough_iff alike).mp saturated)]
  exact alike.begin.applied.positional Likeness.upToIdentities_lawful

end Ran

end Callable
