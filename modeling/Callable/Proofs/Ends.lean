import Callable.Machine.Fuel

/-! How runs end when fuel is of no concern. A run that `Ends` in an outcome does so with all
fuels from some amount on; by `evaluate_le` one fuel that finishes is enough. Parts of a run may
be given their fuels apart from each other, which is what `Ends.bind` says. -/

namespace Callable

abbrev Outcome (α : Type) := EStateM.Result Halt Store α

namespace Outcome

variable {α : Type}

def store : Outcome α → Store
  | .ok _ s => s
  | .error _ s => s

@[simp] theorem store_ok (a : α) (s : Store) : store (.ok a s) = s := rfl

@[simp] theorem store_error (h : Halt) (s : Store) : store (.error h s : Outcome α) = s := rfl

/-- An outcome that more fuel does not change. -/
def Finished : Outcome α → Prop
  | .error .exhausted _ => False
  | _ => True

@[simp] theorem finished_ok (a : α) (s : Store) : Finished (.ok a s) := trivial

@[simp] theorem finished_defect (d : Defect) (s : Store) :
    Finished (α := α) (.error (.defect d) s) := trivial

@[simp] theorem not_finished_exhausted (s : Store) :
    ¬ Finished (α := α) (.error .exhausted s) := id

end Outcome

namespace Run

variable {α β : Type} {x : Run α} {f : α → Run β} {s t : Store} {a : α} {b : β}

theorem bind_of_ok (h : x s = .ok a t) : (x >>= f) s = f a t := by
  simp only [Bind.bind, EStateM.bind, h]

theorem bind_of_error {e : Halt} (h : x s = .error e t) : (x >>= f) s = .error e t := by
  simp only [Bind.bind, EStateM.bind, h]

theorem bind_congr {y : Run α} (h : x s = y t) : (x >>= f) s = (y >>= f) t := by
  simp only [Bind.bind, EStateM.bind, h]

theorem bind_eq_ok : (x >>= f) s = .ok b t ↔ ∃ a u, x s = .ok a u ∧ f a u = .ok b t := by
  constructor
  · intro h
    cases hx : x s with
    | ok a u => exact ⟨a, u, rfl, (bind_of_ok hx).symm.trans h⟩
    | error e u => rw [bind_of_error hx] at h; cases h
  · rintro ⟨a, u, hx, hf⟩
    rw [bind_of_ok hx, hf]

def journal (x : Run α) (s : Store) : List Entry := (Outcome.store (x s)).journal

theorem journal_of_eq {o : Outcome α} (h : x s = o) : journal x s = o.store.journal :=
  congrArg (fun o => (Outcome.store o).journal) h

@[simp] theorem pure_apply (a : α) (s : Store) : (pure a : Run α) s = .ok a s := rfl

theorem newClosure_of_many {target : Target} {scope : Option (Scope Value)}
    {signature : Signature} {bound carried : List Value} (h : signature.arity < bound.length) :
    newClosure target scope signature bound carried s =
      .error (.defect (.tooManyBound target.name)) s := by
  unfold newClosure
  rw [if_pos h]
  rfl

theorem newClosure_of_fits {target : Target} {scope : Option (Scope Value)}
    {signature : Signature} {bound carried : List Value} (h : ¬ signature.arity < bound.length) :
    newClosure target scope signature bound carried s =
      .ok ⟨s.nextIdentity, target, scope, signature, bound, carried⟩
        { s with tally := s.tally.count .closure, nextIdentity := s.nextIdentity + 1 } := by
  unfold newClosure
  rw [if_neg h]
  rfl

theorem newClosure_eq_ok {target : Target} {scope : Option (Scope Value)}
    {signature : Signature} {bound carried : List Value} {f : Closure Value}
    (h : newClosure target scope signature bound carried s = .ok f t) :
    f = ⟨s.nextIdentity, target, scope, signature, bound, carried⟩ ∧
      t = { s with tally := s.tally.count .closure, nextIdentity := s.nextIdentity + 1 } := by
  by_cases many : signature.arity < bound.length
  · cases (newClosure_of_many many).symm.trans h
  · cases (newClosure_of_fits many).symm.trans h
    exact ⟨rfl, rfl⟩

theorem Le.eq_of_finished {y : Run α} {o : Outcome α} (le : Run.Le x y) (h : x s = o)
    (finished : o.Finished) : y s = o := by
  subst h
  rcases le s with ⟨u, e⟩ | e
  · rw [e] at finished
    exact absurd finished (Outcome.not_finished_exhausted u)
  · exact e.symm

end Run

/-- With that much fuel or more, the run of `x` from `s` has this outcome. -/
def Ends {α : Type} (bodies : Bodies) (x : Evaluator → Nat → Run α) (s : Store)
    (o : Outcome α) : Prop :=
  ∃ enough, ∀ fuel, enough ≤ fuel → x (Machine.evaluate bodies fuel) fuel s = o

namespace Ends

variable {α β : Type} {bodies : Bodies} {x : Evaluator → Nat → Run α} {s t : Store} {a : α}

theorem of_fuel {fuel : Nat} {o : Outcome α}
    (le : ∀ {m n}, m ≤ n → Run.Le (x (Machine.evaluate bodies m) m)
      (x (Machine.evaluate bodies n) n))
    (h : x (Machine.evaluate bodies fuel) fuel s = o) (finished : o.Finished) :
    Ends bodies x s o :=
  ⟨fuel, fun _ more => (le more).eq_of_finished h finished⟩

theorem of_apply {settings : Settings} {call : Call} {o : Outcome Reply} (fuel : Nat)
    (h : Machine.apply (Machine.evaluate bodies fuel) fuel settings call s = o)
    (finished : o.Finished) : Ends bodies (Machine.apply · · settings call) s o :=
  of_fuel (fun le => Machine.apply_le (Machine.evaluate_le _ le) le _ _) h finished

theorem constant {x : Run α} {o : Outcome α} (h : x s = o) :
    Ends bodies (fun _ _ => x) s o :=
  ⟨0, fun _ _ => h⟩

theorem bind {f : α → Evaluator → Nat → Run β} {o : Outcome β} (hx : Ends bodies x s (.ok a t))
    (hf : Ends bodies (f a) t o) :
    Ends bodies (fun eval rounds => x eval rounds >>= fun a => f a eval rounds) s o := by
  obtain ⟨m, hm⟩ := hx
  obtain ⟨n, hn⟩ := hf
  exact ⟨max m n, fun fuel enough =>
    (Run.bind_of_ok (hm fuel (by omega))).trans (hn fuel (by omega))⟩

theorem bind_iff {f : α → Evaluator → Nat → Run β} {o : Outcome β}
    (hx : Ends bodies x s (.ok a t)) :
    Ends bodies (fun eval rounds => x eval rounds >>= fun a => f a eval rounds) s o ↔
      Ends bodies (f a) t o := by
  refine ⟨?_, hx.bind⟩
  obtain ⟨m, hm⟩ := hx
  rintro ⟨n, hn⟩
  exact ⟨max m n, fun fuel enough =>
    (Run.bind_of_ok (hm fuel (by omega))).symm.trans (hn fuel (by omega))⟩

theorem bind_error {f : α → Evaluator → Nat → Run β} {e : Halt}
    (hx : Ends bodies x s (.error e t)) :
    Ends bodies (fun eval rounds => x eval rounds >>= fun a => f a eval rounds) s
      (.error e t) := by
  obtain ⟨m, hm⟩ := hx
  exact ⟨m, fun fuel enough => Run.bind_of_error (hm fuel enough)⟩

theorem unique {o o' : Outcome α} (h : Ends bodies x s o) (h' : Ends bodies x s o') : o = o' := by
  obtain ⟨m, hm⟩ := h
  obtain ⟨n, hn⟩ := h'
  rw [← hm (max m n) (by omega), hn (max m n) (by omega)]

theorem of_pure {o : Outcome α} (h : Ends bodies x s (.ok a t))
    (h' : Ends bodies (fun _ _ => pure a) t o) : Ends bodies x s o := by
  obtain ⟨n, hn⟩ := h'
  exact hn n (Nat.le_refl _) ▸ h

theorem step {task : Task} {o : Outcome Reply}
    (h : Ends bodies (fun eval rounds => Machine.step eval rounds bodies task) s o) :
    Ends bodies (fun eval _ => eval task) s o := by
  obtain ⟨m, hm⟩ := h
  refine ⟨m + 1, fun fuel enough => ?_⟩
  obtain ⟨n, rfl⟩ : ∃ n, fuel = n + 1 := ⟨fuel - 1, by omega⟩
  exact hm n (by omega)

end Ends

end Callable
