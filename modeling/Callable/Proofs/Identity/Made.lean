import Callable.Proofs.Contents
import Callable.Proofs.Evaluation

/-! What was made. All closures and suspensions that were constructed so far stand in one list, each
in the place of its identity. A run makes more of them, which are appended, and whatever it has in
an entry or in its answer is a copy of one in the list. -/

namespace Callable

def Value.identity? : Value → Option Nat
  | .closure f => some f.identity
  | .suspension t => some t.identity
  | _ => none

theorem Value.Holds.trans {v w u : Value} (h : v.Holds w) (inside : w.Holds u) : v.Holds u := by
  induction h with
  | here => exact inside
  | part mem _ ih => exact .part mem (ih inside)

/-- Each closure and each suspension in these values is in the given ones. -/
def Copied (given vs : List Value) : Prop :=
  ∀ v ∈ vs, ∀ w i, v.Holds w → w.identity? = some i → ∃ u ∈ given, u.Holds w

theorem Copied.of_subset {given vs : List Value} (h : vs ⊆ given) : Copied given vs :=
  fun v mem _ _ inside _ => ⟨v, h mem, inside⟩

theorem Copied.unit (given : List Value) : Copied given [.unit] := by
  intro v mem w i inside identity
  obtain rfl := List.mem_singleton.mp mem
  cases inside with
  | here => cases identity
  | part mem => cases mem

/-- Each closure and each suspension in the value is what was made under its identity. -/
def Value.MadeIn (made : List Value) (v : Value) : Prop :=
  ∀ w i, v.Holds w → w.identity? = some i → made[i]? = some w

def MadeIn (made vs : List Value) : Prop := ∀ v ∈ vs, v.MadeIn made

section

variable {made made' us vs : List Value} {v : Value}

@[simp] theorem madeIn_nil : MadeIn made [] := fun _ mem => nomatch mem

@[simp] theorem madeIn_cons : MadeIn made (v :: vs) ↔ v.MadeIn made ∧ MadeIn made vs :=
  List.forall_mem_cons

@[simp] theorem madeIn_append : MadeIn made (us ++ vs) ↔ MadeIn made us ∧ MadeIn made vs :=
  List.forall_mem_append

theorem Value.MadeIn.inside (h : v.MadeIn made) {w : Value} (holds : v.Holds w) :
    w.MadeIn made :=
  fun u i inside => h u i (holds.trans inside)

theorem MadeIn.of_subset (h : MadeIn made us) (subset : vs ⊆ us) : MadeIn made vs :=
  fun v mem => h v (subset mem)

theorem Copied.madeIn (copied : Copied us vs) (h : MadeIn made us) : MadeIn made vs := by
  intro v mem w i inside identity
  obtain ⟨u, mem', inside'⟩ := copied v mem w i inside identity
  exact h u mem' w i inside' identity

theorem Value.MadeIn.mono (h : v.MadeIn made) (more : made <+: made') : v.MadeIn made' := by
  obtain ⟨new, rfl⟩ := more
  intro w i inside identity
  exact List.getElem?_append_left (List.getElem?_eq_some_iff.mp (h w i inside identity)).1 ▸
    h w i inside identity

theorem MadeIn.mono (h : MadeIn made vs) (more : made <+: made') : MadeIn made' vs :=
  fun v mem => (h v mem).mono more

theorem Value.madeIn_iff : v.MadeIn made ↔
    (∀ i, v.identity? = some i → made[i]? = some v) ∧ Callable.MadeIn made v.parts := by
  constructor
  · exact fun h => ⟨fun i => h v i .here, fun u mem w i inside => h w i (.part mem inside)⟩
  · intro h w i inside identity
    rcases Value.holds_iff.mp inside with rfl | ⟨u, mem, inside⟩
    · exact h.1 i identity
    · exact h.2 u mem w i inside identity

@[simp] theorem Value.madeIn_closure {f : Closure Value} : (Value.closure f).MadeIn made ↔
    made[f.identity]? = some (.closure f) ∧ Callable.MadeIn made (f.scope.elim [] Scope.values) ∧
      Callable.MadeIn made f.bound ∧ Callable.MadeIn made f.carried := by
  simp [Value.madeIn_iff (v := .closure f), parts, identity?]

@[simp] theorem Value.madeIn_suspension {t : Suspension Value} :
    (Value.suspension t).MadeIn made ↔
      made[t.identity]? = some (.suspension t) ∧ Callable.MadeIn made t.scope.values := by
  simp [Value.madeIn_iff (v := .suspension t), parts, identity?]

end

namespace Value

variable {v w : Value} {i j : Nat}

theorem identity_of_equals (identity : v.identity? = some i) (identity' : w.identity? = some j)
    (h : v.equals w = true) : i = j := by
  cases v with
  | closure f =>
    cases w with
    | closure g =>
      rw [equals, beq_iff_eq] at h
      exact Option.some.inj ((identity.symm.trans (congrArg some h)).trans identity')
    | _ => cases h
  | suspension x =>
    cases w with
    | suspension y =>
      rw [equals, beq_iff_eq] at h
      exact Option.some.inj ((identity.symm.trans (congrArg some h)).trans identity')
    | _ => cases h
  | _ => cases identity

theorem equals_self (identity : v.identity? = some i) : v.equals v = true := by
  cases v with
  | closure | suspension => rw [equals, beq_self_eq_true]
  | _ => cases identity

theorem not_equals_of_identity (identity : v.identity? = some i) (without : w.identity? = none) :
    v.equals w = false := by
  cases v with
  | closure f =>
    cases w with
    | closure => cases without
    | _ => rfl
  | suspension x =>
    cases w with
    | suspension => cases without
    | _ => rfl
  | _ => cases identity

theorem equals_iff {made : List Value} (hv : v.MadeIn made) (hw : w.MadeIn made)
    (identity : v.identity? = some i) (identity' : w.identity? = some j) :
    v.equals w = true ↔ ∃ k : Nat, made[k]? = some v ∧ made[k]? = some w := by
  constructor
  · intro equal
    obtain rfl := identity_of_equals identity identity' equal
    exact ⟨i, hv v i .here identity, hw w i .here identity'⟩
  · rintro ⟨k, at_k, at_k'⟩
    cases at_k.symm.trans at_k'
    exact equals_self identity

end Value

/-- What was made so far: one value for each identity that was given out. The given values, and
those in the journal, are copies of it. -/
structure Store.Made (given : List Value) (s : Store) (made : List Value) : Prop where
  count : made.length = s.nextIdentity
  identities : ∀ i (v : Value), made[i]? = some v → v.identity? = some i
  given : MadeIn made given
  entries : ∀ e ∈ s.journal, MadeIn made e.values

namespace Store.Made

variable {given made vs : List Value} {s t : Store}

theorem nothing : Store.Made [] {} [] where
  count := rfl
  identities i v at_i := by simp at at_i
  given := madeIn_nil
  entries _ mem := nomatch mem

theorem congr (h : s.Made given made) (identities : t.nextIdentity = s.nextIdentity)
    (journal : t.journal = s.journal) : t.Made given made where
  count := h.count.trans identities.symm
  identities := h.identities
  given := h.given
  entries := journal ▸ h.entries

theorem log (h : s.Made given made) {entries : List Entry}
    (copies : ∀ e ∈ entries, MadeIn made e.values) : (s.log entries).Made given made where
  count := h.count
  identities := h.identities
  given := h.given
  entries e mem := (List.mem_append.mp mem).elim
    (fun mem => copies e (List.mem_reverse.mp mem)) (h.entries e)

theorem have_copies (h : s.Made given made) (copies : MadeIn made vs) : s.Made vs made :=
  ⟨h.count, h.identities, copies, h.entries⟩

theorem extend (h : s.Made given made) {v : Value} (fresh : v.identity? = some s.nextIdentity)
    (parts : MadeIn made v.parts) (next : t.nextIdentity = s.nextIdentity + 1)
    (journal : t.journal = s.journal) :
    t.Made given (made ++ [v]) ∧ v.MadeIn (made ++ [v]) := by
  have more : made <+: made ++ [v] := List.prefix_append _ _
  have last : (made ++ [v])[s.nextIdentity]? = some v :=
    h.count ▸ List.getElem?_concat_length
  refine ⟨⟨?_, fun i w at_i => ?_, h.given.mono more, fun e mem => ?_⟩, ?_⟩
  · rw [List.length_append, h.count, next, List.length_singleton]
  · rcases Nat.lt_trichotomy i made.length with less | rfl | greater
    · exact h.identities i w (List.getElem?_append_left less ▸ at_i)
    · cases (h.count ▸ last).symm.trans at_i
      exact h.count ▸ fresh
    · have beyond : (made ++ [v]).length ≤ i := by
        rw [List.length_append, List.length_singleton]
        omega
      cases (List.getElem?_eq_none beyond).symm.trans at_i
  · exact (h.entries e (journal ▸ mem)).mono more
  · refine Value.madeIn_iff.mpr ⟨fun i identity => ?_, parts.mono more⟩
    cases fresh.symm.trans identity
    exact last

theorem not_equal (h : s.Made given made) {v w : Value} (fresh : v.identity? = some s.nextIdentity)
    (mem : w ∈ made) : v.equals w = false := by
  obtain ⟨i, at_i⟩ := List.getElem?_of_mem mem
  have less : i < s.nextIdentity := h.count ▸ (List.getElem?_eq_some_iff.mp at_i).1
  refine Bool.eq_false_iff.mpr fun equal => ?_
  have same := Value.identity_of_equals fresh (h.identities i w at_i) equal
  omega

end Store.Made

def Outcome.answered {α : Type} (values : α → List Value) : Outcome α → List Value
  | .ok a _ => values a
  | .error _ _ => []

/-- The run makes more, if it begins with this made, and has no closures and no suspensions in its
answer but copies of what is made then. -/
def Run.Makes {α : Type} (given made : List Value) (values : α → List Value) (x : Run α) : Prop :=
  ∀ s : Store, s.Made given made → ∃ made', made <+: made' ∧
    (Outcome.store (x s)).Made given made' ∧ ∀ a t, x s = .ok a t → MadeIn made' (values a)

namespace Run.Makes

variable {α β : Type} {given made : List Value} {x : Run α} {values : α → List Value}
  {values' : β → List Value}

theorem of_apart (store : ∀ s, (Outcome.store (x s)).nextIdentity = s.nextIdentity ∧
      journal x s = s.journal)
    (answer : ∀ s a t, x s = .ok a t → MadeIn made (values a)) : Makes given made values x :=
  fun s h => ⟨made, List.prefix_refl made, h.congr (store s).1 (store s).2, answer s⟩

theorem pure {a : α} (h : MadeIn made (values a)) : Makes given made values (pure a) :=
  of_apart (fun _ => ⟨rfl, rfl⟩) fun _ _ _ e => by cases e; exact h

theorem throw (halt : Halt) : Makes given made values (throw halt : Run α) :=
  of_apart (fun _ => ⟨rfl, rfl⟩) fun _ _ _ e => nomatch e

theorem of_given (h : MadeIn made given → Makes given made values x) :
    Makes given made values x := fun s hs => h hs.given s hs

theorem bind {f : α → Run β} (h : Makes given made values x)
    (onward : ∀ {made'}, made <+: made' → ∀ a, MadeIn made' (values a) →
      Makes given made' values' (f a)) :
    Makes given made values' (x >>= f) := by
  intro s hs
  obtain ⟨made', more, store, answer⟩ := h s hs
  cases hx : x s with
  | error halt t =>
    rw [hx] at store
    rw [bind_of_error hx]
    exact ⟨made', more, store, fun _ _ e => nomatch e⟩
  | ok a t =>
    rw [hx] at store
    rw [bind_of_ok hx]
    obtain ⟨made'', more', last⟩ := onward more a (answer a t hx) t store
    exact ⟨made'', more.trans more', last⟩

theorem record {e : Entry} {f : Unit → Run β} (h : MadeIn made e.values)
    (onward : Makes given made values' (f ())) : Makes given made values' (Run.record e >>= f) :=
  fun s hs => onward { s with journal := e :: s.journal }
    ⟨hs.count, hs.identities, hs.given, List.forall_mem_cons.mpr ⟨h, hs.entries⟩⟩

theorem emit {e : Event} {f : Unit → Run β} (onward : Makes given made values' (f ())) :
    Makes given made values' (Run.emit e >>= f) :=
  .record madeIn_nil onward

theorem newClosure {target : Target} {scope : Option (Scope Value)} {signature : Signature}
    {bound carried : List Value}
    (h : MadeIn made (scope.elim [] Scope.values ++ bound ++ carried)) :
    Makes given made (fun f => [.closure f])
      (Run.newClosure target scope signature bound carried) := by
  intro s hs
  by_cases many : signature.arity < bound.length
  · rw [newClosure_of_many many]
    exact ⟨made, List.prefix_refl made, hs, fun _ _ e => nomatch e⟩
  · rw [newClosure_of_fits many]
    obtain ⟨store, copy⟩ := hs.extend (t := { s with
      tally := s.tally.count .closure, nextIdentity := s.nextIdentity + 1 })
      (v := .closure ⟨s.nextIdentity, target, scope, signature, bound, carried⟩) rfl h rfl rfl
    refine ⟨_, List.prefix_append _ _, store, fun f t e => ?_⟩
    cases e
    exact madeIn_cons.mpr ⟨copy, madeIn_nil⟩

theorem newSuspension {target : Target} {scope : Scope Value} (h : MadeIn made scope.values) :
    Makes given made (fun x => [.suspension x]) (Run.newSuspension target scope) := by
  intro s hs
  obtain ⟨store, copy⟩ := hs.extend (v := .suspension ⟨s.nextIdentity, target, scope⟩)
    (t := { s with tally := s.tally.count .suspension, nextIdentity := s.nextIdentity + 1 })
    rfl h rfl rfl
  refine ⟨_, List.prefix_append _ _, store, fun x t e => ?_⟩
  cases e
  exact madeIn_cons.mpr ⟨copy, madeIn_nil⟩

theorem reach (h : Makes given made values x) {s : Store} (hs : s.Made given made)
    {earlier known : List Value} (before : earlier <+: made) (at_hand : MadeIn made known) :
    ∃ made', earlier <+: made' ∧ (Outcome.store (x s)).Made given made' ∧
      MadeIn made' ((Outcome.answered values (x s)) ++ known) := by
  obtain ⟨made', more, store, answer⟩ := h s hs
  refine ⟨made', before.trans more, store, madeIn_append.mpr ⟨?_, at_hand.mono more⟩⟩
  cases hx : x s with
  | ok a t => exact answer a t hx
  | error halt t => exact madeIn_nil

end Run.Makes

end Callable
