import Callable.Proofs.Carried
import Callable.Proofs.Growth.Machine
import Mathlib.Data.Nat.Find
import Mathlib.Order.WellFounded

/-! How many arguments are enough. The last parameter without a default decides: an application to
fewer arguments than it takes to supply that one only binds them, and any other one is for the body.
So, as the arguments of a closure grow in number, its applications are partial up to one point and
not from there on: `Signature.saturation_is_threshold`. -/

namespace Callable

namespace Signature

/-- So many leading arguments are required: none, or those up to the last one without a default. -/
inductive Requires (g : Signature) : Nat → Prop where
  | nothing (optional : ∀ p ∈ g.parameters, p.hasDefault = true) : Requires g 0
  | upTo {i p} (parameter : g.parameters[i]? = some p) (required : p.hasDefault = false)
      (optional : ∀ j q, i < j → g.parameters[j]? = some q → q.hasDefault = true) :
      Requires g (i + 1)

variable {g : Signature} {t t' n : Nat}

theorem isSaturatedBy_iff_forall : g.isSaturatedBy n = true ↔
    ∀ i p, n ≤ i → g.parameters[i]? = some p → p.hasDefault = true := by
  rw [isSaturatedBy, List.all_eq_true]
  constructor
  · intro all i p le parameter
    refine all p (List.mem_of_getElem? (i := i - n) ?_)
    rwa [List.getElem?_drop, Nat.add_sub_cancel' le]
  · intro all p mem
    obtain ⟨i, at_i⟩ := List.mem_iff_getElem?.mp mem
    rw [List.getElem?_drop] at at_i
    exact all (n + i) p (Nat.le_add_right n i) at_i

theorem Requires.isSaturatedBy_iff (requires : g.Requires t) :
    g.isSaturatedBy n = true ↔ t ≤ n := by
  rw [isSaturatedBy_iff_forall]
  cases requires with
  | nothing optional =>
    exact ⟨fun _ => Nat.zero_le n, fun _ _ p _ at_i => optional p (List.mem_of_getElem? at_i)⟩
  | @upTo i p parameter required optional =>
    constructor
    · intro all
      by_contra short
      have has_default := all i p (by omega) parameter
      rw [required] at has_default
      cases has_default
    · exact fun le j q le' => optional j q (by omega)

theorem Requires.unique (requires : g.Requires t)
    (threshold : ∀ n, g.isSaturatedBy n = true ↔ t' ≤ n) : t' = t := by
  refine eq_of_forall_ge_iff fun n => ?_
  rw [← threshold, requires.isSaturatedBy_iff]

theorem exists_requires_le (optional : g.isSaturatedBy n = true) : ∃ t ≤ n, g.Requires t := by
  induction n with
  | zero =>
    refine ⟨0, Nat.le_refl 0, .nothing fun p mem => ?_⟩
    obtain ⟨i, at_i⟩ := List.mem_iff_getElem?.mp mem
    exact isSaturatedBy_iff_forall.mp optional i p (Nat.zero_le i) at_i
  | succ n ih =>
    have later := isSaturatedBy_iff_forall.mp optional
    by_cases required : ∃ p, g.parameters[n]? = some p ∧ p.hasDefault = false
    · obtain ⟨p, parameter, required⟩ := required
      exact ⟨n + 1, Nat.le_refl _, .upTo parameter required later⟩
    · have optional' : g.isSaturatedBy n = true := by
        refine isSaturatedBy_iff_forall.mpr fun i p le at_i => ?_
        rcases Nat.eq_or_lt_of_le le with rfl | less
        · exact Bool.not_eq_false _ ▸ fun has_none => required ⟨p, at_i, has_none⟩
        · exact later i p less at_i
      obtain ⟨t, le, requires⟩ := ih optional'
      exact ⟨t, Nat.le_succ_of_le le, requires⟩

end Signature

namespace Machine

variable {bodies : Bodies} {settings : Settings} {call : Call} {fuel rounds : Nat}
  {s t u : Store} {reply : Reply}

def Invokes (call : Call) (s t : Store) : Prop :=
  ∃ payload before, .invoked (.application call) payload :: before <:+ t.journal ∧
    s.journal <:+ before

namespace Invokes

theorem later (h : Invokes call s t) (more : t.journal <:+ u.journal) : Invokes call s u := by
  obtain ⟨payload, before, entry, began⟩ := h
  exact ⟨payload, before, entry.trans more, began⟩

theorem earlier (h : Invokes call t u) (began : s.journal <:+ t.journal) : Invokes call s u := by
  obtain ⟨payload, before, entry, began'⟩ := h
  exact ⟨payload, before, entry, began.trans began'⟩

theorem invocations_lt (h : Invokes call s t) : s.invocations.length < t.invocations.length := by
  obtain ⟨payload, before, entry, began⟩ := h
  have whole := (entry.filterMap Entry.invocation?).length_le
  have part := (began.filterMap Entry.invocation?).length_le
  exact Nat.lt_of_le_of_lt part (Nat.lt_of_succ_le whole)

end Invokes

theorem invoke_invokes {payload : Payload}
    (run : evaluate bodies fuel (.invoke (.application call) payload) s = .ok reply t) :
    Invokes call s t :=
  ⟨payload, s.journal, invoked_of_reply run, List.suffix_refl _⟩

theorem bodyReply_invokes
    (run : bodyReply (evaluate bodies fuel) rounds settings call s = .ok reply t) :
    (∃ fault, reply = .error fault ∧ Settled (.error fault : Reply)) ∨ Invokes call s t := by
  have adds := Run.Extends.evaluate bodies fuel
  obtain ⟨forced, u, forcing, run⟩ := Run.bind_eq_ok.mp run
  cases forced with
  | error fault =>
    cases run
    exact .inl ⟨fault, rfl, (forceArguments_settled forcing).of_error⟩
  | ok arguments =>
    obtain ⟨caller, w, presented, run⟩ := Run.bind_eq_ok.mp run
    have forced := (Run.Extends.forceArguments adds _ _).of_eq forcing
    have presenting := (Run.Idles.presentedCaller call).grows.of_eq presented
    exact .inr ((invoke_invokes run).earlier (forced.trans presenting))

theorem apply_invokes {v : Value} (saturated : call.isSaturated = true)
    (run : apply (evaluate bodies fuel) rounds settings call s = .ok (.ok v) t) :
    Invokes call s t := by
  obtain ⟨reply, w, once, settling⟩ := Run.bind_eq_ok.mp run
  cases fuel with
  | zero => cases once
  | succ fuel =>
    have adds := Run.Extends.evaluate bodies fuel
    have announced := Store.suffix_log s ((Policy.loops settings).announce call)
    obtain ⟨result, u, body, finishing⟩ :=
      Run.bind_eq_ok.mp ((dispatch_of_saturated saturated).symm.trans once)
    rcases bodyReply_invokes body with ⟨fault, rfl, settled⟩ | invokes
    · rw [finish_of_fault settled] at finishing
      cases finishing
      rw [settle_of_settled settled] at settling
      cases settling
    · have finished := (Run.Extends.finish adds call result).of_eq finishing
      have settled := (Run.Extends.settle (Run.Extends.evaluate bodies (fuel + 1)) reply).of_eq
        settling
      exact (invokes.earlier announced).later (finished.trans settled)

end Machine

open Machine

/-- The application of a closure with that signature, from some store on. -/
structure Application (g : Signature) where
  settings : Settings
  call : Call
  signature : call.closure.signature = g
  store : Store

namespace Application

variable {g : Signature} {bodies : Bodies} {t : Nat}

def total (a : Application g) : Nat := a.call.supplied.length

/-- It is answered with a closure that has bound all that is supplied, and no body is invoked. -/
def Partial (bodies : Bodies) (a : Application g) : Prop :=
  ∃ i t, Ends bodies (apply · · a.settings a.call) a.store
      (.ok (.ok (.closure (a.call.rebound i))) t) ∧
    t.invocations = a.store.invocations

theorem isSaturated_eq (a : Application g) : a.call.isSaturated = g.isSaturatedBy a.total :=
  congrArg (·.isSaturatedBy a.total) a.signature

theorem partial_iff (requires : g.Requires t) (a : Application g) :
    a.Partial bodies ↔ a.total < t := by
  rw [← Nat.not_le, ← requires.isSaturatedBy_iff, ← a.isSaturated_eq, Bool.not_eq_true]
  constructor
  · rintro ⟨i, t, ⟨enough, run⟩, quiet⟩
    by_contra saturated
    have more := (apply_invokes (Bool.not_eq_false _ ▸ saturated)
      (run enough (Nat.le_refl enough))).invocations_lt
    rw [quiet] at more
    exact Nat.lt_irrefl _ more
  · exact fun unsaturated => apply_of_unsaturated bodies a.settings unsaturated a.store

theorem existsUnique_point {early : Nat → Prop} (before : ∀ i j, i ≤ j → early j → early i)
    (ends : ∃ i, ¬ early i) : ∃! k, ∀ i, early i ↔ i < k := by
  classical
  refine ⟨Nat.find ends, fun i => ?_, fun k point => ?_⟩
  · rw [Nat.lt_find_iff]
    constructor
    · exact fun here j le late => late (before j i le here)
    · exact fun all => not_not.mp (all i (Nat.le_refl i))
  · refine (Nat.find_eq_iff ends).mpr ⟨?_, fun i less => ?_⟩ |>.symm
    · exact fun here => Nat.lt_irrefl k ((point k).mp here)
    · exact not_not.mpr ((point i).mpr less)

theorem existsUnique_point_list (requires : g.Requires t) {as : List (Application g)}
    (grows : as.Pairwise (·.total ≤ ·.total)) :
    ∃! k : Nat, ∀ i : Nat, (∃ a ∈ as[i]?, a.Partial bodies) ↔ i < k := by
  refine existsUnique_point (fun i j le => ?_) ⟨as.length, ?_⟩
  · rintro ⟨b, at_j, late⟩
    obtain ⟨inside, rfl⟩ := List.getElem?_eq_some_iff.mp at_j
    have inside' : i < as.length := by omega
    refine ⟨as[i], List.getElem?_eq_getElem inside', (partial_iff requires _).mpr ?_⟩
    refine Nat.lt_of_le_of_lt ?_ ((partial_iff requires _).mp late)
    rcases Nat.eq_or_lt_of_le le with rfl | less
    · exact Nat.le_refl _
    · exact List.pairwise_iff_getElem.mp grows i j inside' inside less
  · rintro ⟨a, beyond, -⟩
    rw [List.getElem?_eq_none (Nat.le_refl _)] at beyond
    cases beyond

theorem existsUnique_point_seq (requires : g.Requires t) {as : Nat → Application g}
    (grows : StrictMono fun i => (as i).total) :
    ∃! k, ∀ i, (as i).Partial bodies ↔ i < k := by
  simp only [partial_iff requires]
  refine existsUnique_point (fun i j le late => ?_) ⟨t, ?_⟩
  · exact Nat.lt_of_le_of_lt (grows.monotone le) late
  · exact Nat.not_lt.mpr grows.le_apply

end Application

/-- A signature has one threshold: as many arguments as there are parameters up to the last one
without a default. So many or more saturate it, which is to say that none is missing or that each
missing one has a default. The applications to fewer arguments in all are the partial ones, so that
among applications to more and more arguments it is just those before one point. -/
theorem Signature.saturation_is_threshold (g : Signature) (bodies : Bodies) :
    ∃ t, g.Requires t ∧ t ≤ g.arity ∧
      (∀ t', (∀ n, g.isSaturatedBy n = true ↔ t' ≤ n) ↔ t' = t) ∧
      (∀ n, g.isSaturatedBy n = true ↔ g.arity ≤ n ∨
        ∀ i p, n ≤ i → g.parameters[i]? = some p → p.hasDefault = true) ∧
      (∀ a : Application g, a.Partial bodies ↔ a.total < t) ∧
      (∀ as : List (Application g), as.Pairwise (·.total ≤ ·.total) →
        ∃! k : Nat, ∀ i : Nat, (∃ a ∈ as[i]?, a.Partial bodies) ↔ i < k) ∧
      ∀ as : Nat → Application g, (StrictMono fun i => (as i).total) →
        ∃! k, ∀ i, (as i).Partial bodies ↔ i < k := by
  obtain ⟨t, le, requires⟩ := exists_requires_le (isSaturatedBy_of_arity_le (Nat.le_refl g.arity))
  refine ⟨t, requires, le, fun t' => ⟨requires.unique, ?_⟩, fun n => ?_,
    Application.partial_iff requires, fun _ => Application.existsUnique_point_list requires,
    fun _ => Application.existsUnique_point_seq requires⟩
  · rintro rfl n
    exact requires.isSaturatedBy_iff
  · rw [isSaturatedBy_iff_forall]
    refine ⟨.inr, fun enough => ?_⟩
    rcases enough with all | optional
    · exact isSaturatedBy_iff_forall.mp (isSaturatedBy_of_arity_le all)
    · exact optional

namespace Application

def gapped : Signature :=
  ⟨.direct, .withheld, [.plain 0 "x", .defaulted 1 "y", .plain 2 "z", .defaulted 3 "w"], by decide⟩

def units (bound more : Nat) : Application gapped where
  settings := {}
  call := ⟨⟨0, ⟨"gapped", 0, none⟩, none, gapped, .replicate bound .unit, []⟩, none, .unit,
    .replicate more .unit⟩
  signature := rfl
  store := {}

theorem units_total (bound more : Nat) : (units bound more).total = bound + more := by
  simp [total, units, Call.supplied]

theorem gapped_requires : gapped.Requires 3 :=
  .upTo (i := 2) rfl rfl fun j q later at_j => by
    obtain ⟨inside, -⟩ := List.getElem?_eq_some_iff.mp at_j
    obtain rfl : j = 3 := Nat.le_antisymm (Nat.le_of_lt_succ inside) later
    cases at_j
    rfl

theorem units_saturation :
    [units 0 1, units 1 1, units 2 1].Pairwise (·.total ≤ ·.total) ∧
    (StrictMono fun n => (units 0 n).total) ∧
    (∃! k : Nat, ∀ i : Nat, (∃ a ∈ [units 0 1, units 1 1, units 2 1][i]?,
      a.Partial Bodies.collecting) ↔ i < k) ∧
    (∃! k, ∀ i, (units 0 i).Partial Bodies.collecting ↔ i < k) ∧
    (units 1 1).Partial Bodies.collecting ∧ ¬ (units 2 1).Partial Bodies.collecting := by
  have listed : [units 0 1, units 1 1, units 2 1].Pairwise (·.total ≤ ·.total) := by
    simp [units_total]
  have grows : StrictMono fun n => (units 0 n).total := by
    simp only [units_total, Nat.zero_add]
    exact strictMono_id
  obtain ⟨t, -, -, threshold, -, partial_iff, list, seq⟩ :=
    Signature.saturation_is_threshold gapped Bodies.collecting
  obtain rfl : 3 = t := (threshold 3).mp fun n => gapped_requires.isSaturatedBy_iff
  refine ⟨listed, grows, list _ listed, seq _ grows, ?_, ?_⟩
  · exact (partial_iff _).mpr (by decide)
  · exact fun late => absurd ((partial_iff _).mp late) (by decide)

end Application

end Callable
