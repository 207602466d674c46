import Callable.Machine

/-! Fuel only decides whether a run is finished. `Run.Le x y` says that `y` ends as `x` does, in
the same store, unless `x` ran out of fuel. The main statement is `Machine.evaluate_le`: more
fuel keeps every finished run of a task. -/

namespace Callable

/-- Wherever `x` does not run out of fuel, `y` does the same. -/
def Run.Le {α : Type} (x y : Run α) : Prop :=
  ∀ s, (∃ s', x s = .error .exhausted s') ∨ x s = y s

namespace Run.Le

variable {α β : Type}

theorem refl (x : Run α) : Run.Le x x := fun _ => .inr rfl

theorem of_exhausted (x : Run α) : Run.Le (throw .exhausted) x := fun s => .inl ⟨s, rfl⟩

theorem bind {x y : Run α} {f g : α → Run β} (h : Run.Le x y) (k : ∀ a, Run.Le (f a) (g a)) :
    Run.Le (x >>= f) (y >>= g) := by
  intro s
  rcases h s with ⟨s', e⟩ | e
  · exact .inl ⟨s', by simp [Bind.bind, EStateM.bind, e]⟩
  · simp only [Bind.bind, EStateM.bind, e]
    cases y s with
    | ok a s' => exact k a s'
    | error e s' => exact .inr rfl

theorem perform {f g : (r : Request) → Run r.Answer} (h : ∀ r, Run.Le (f r) (g r))
    (p : Program α) : Run.Le (p.perform f) (p.perform g) := by
  induction p with
  | done a => exact refl _
  | ask r next ih => exact bind (h r) ih

end Run.Le

namespace Machine

section

variable {eval eval' : Evaluator} (le : ∀ task, Run.Le (eval task) (eval' task))
variable {m n : Nat} (h : m ≤ n)

include le h

theorem callLoop_le (settings : Settings) (state : Value) (performed : UInt64)
    (request : TailCall) :
    Run.Le (callLoop eval settings state m performed request)
      (callLoop eval' settings state n performed request) := by
  induction m generalizing n performed request with
  | zero => exact .of_exhausted _
  | succ m ih =>
    obtain ⟨n, rfl⟩ : ∃ k, n = k + 1 := ⟨n - 1, by omega⟩
    simp only [callLoop]
    cases settings.exceeded? (performed + 1) with
    | some limit => exact .refl _
    | none =>
      refine .bind (le _) fun reply => ?_
      split
      · exact ih (by omega) _ _
      · exact .refl _

theorem settle_le (settings : Settings) (state : Value) (reply : Reply) :
    Run.Le (settle eval m settings state reply) (settle eval' n settings state reply) := by
  unfold settle
  split
  · exact .bind (.refl _) fun _ => callLoop_le le h _ _ _ _
  · exact .refl _

theorem apply_le (settings : Settings) (call : Call) :
    Run.Le (apply eval m settings call) (apply eval' n settings call) :=
  .bind (le _) fun _ => settle_le le h _ _ _

theorem applyInFrame_le (settings : Settings) (call : Call) :
    Run.Le (applyInFrame eval m settings call) (applyInFrame eval' n settings call) := by
  refine .bind (le _) fun reply => ?_
  split
  · exact settle_le le h _ _ _
  · exact .refl _

theorem force_le (settings : Settings) (t : Suspension Value) (state : Value) :
    Run.Le (force eval m settings t state) (force eval' n settings t state) :=
  .bind (le _) fun _ => settle_le le h _ _ _

theorem forceValue_le (settings : Settings) (state : Value) {a b : Nat} (steps : a ≤ b)
    (v : Value) :
    Run.Le (forceValue eval m settings state a v) (forceValue eval' n settings state b v) := by
  induction a generalizing b v with
  | zero =>
    cases v with
    | suspension t => exact .of_exhausted _
    | _ => simp only [forceValue]; exact .refl _
  | succ a ih =>
    obtain ⟨b, rfl⟩ : ∃ k, b = k + 1 := ⟨b - 1, by omega⟩
    cases v with
    | suspension t =>
      simp only [forceValue]
      refine .bind (force_le le h _ _ _) fun reply => ?_
      split
      · exact ih (by omega) _
      · exact .refl _
    | _ => simp only [forceValue]; exact .refl _

theorem forceArgument_le (settings : Settings) (state : Value) (p : Parameter) (v : Value) :
    Run.Le (forceArgument eval m settings state p v)
      (forceArgument eval' n settings state p v) := by
  unfold forceArgument
  split
  · exact .refl _
  · exact forceValue_le le h _ _ h _

theorem forceArguments_le (settings : Settings) (state : Value) (ps : List Parameter)
    (vs : List Value) :
    Run.Le (forceArguments eval m settings state ps vs)
      (forceArguments eval' n settings state ps vs) := by
  induction ps generalizing vs with
  | nil => cases vs <;> exact .refl _
  | cons p ps ih =>
    cases vs with
    | nil => exact .refl _
    | cons v vs =>
      simp only [forceArguments]
      refine .bind (forceArgument_le le h _ _ _ _) fun reply => ?_
      split
      · exact .refl _
      · refine .bind (ih _) fun forced => ?_
        split <;> exact .refl _

theorem applySurplus_le (settings : Settings) (call : Call) (reply : Reply) :
    Run.Le (applySurplus eval m settings call reply)
      (applySurplus eval' n settings call reply) := by
  cases reply with
  | error fault => exact .refl _
  | ok v =>
    refine .bind (.refl _) fun _ => ?_
    split
    · exact apply_le le h _ _
    · exact .refl _

theorem runBody_le (settings : Settings) (call : Call) :
    Run.Le (runBody eval m settings call) (runBody eval' n settings call) := by
  refine .bind (forceArguments_le le h _ _ _ _) fun forced => ?_
  split
  · exact .refl _
  · refine .bind (.refl _) fun _ => .bind (le _) fun reply => ?_
    split
    · exact .refl _
    · exact .bind (settle_le le h _ _ _) fun _ => applySurplus_le le h _ _ _

theorem dispatch_le (settings : Settings) (call : Call) :
    Run.Le (dispatch eval m settings call) (dispatch eval' n settings call) := by
  refine .bind (.refl _) fun _ => ?_
  split
  · exact runBody_le le h _ _
  · exact .refl _

theorem answer_le (r : Request) : Run.Le (answer eval m r) (answer eval' n r) := by
  cases r with
  | apply dispatcher call =>
    cases dispatcher with
    | currying => exact apply_le le h _ _
    | host => exact .refl _
  | applyInFrame dispatcher call =>
    cases dispatcher with
    | currying => exact applyInFrame_le le h _ _
    | host => exact .refl _
  | force => exact force_le le h _ _ _
  | resume => exact le _
  | invoke => exact le _
  | _ => exact .refl _

end

/-- More fuel keeps every finished run of a task. -/
theorem evaluate_le (bodies : Bodies) {m n : Nat} (h : m ≤ n) (task : Task) :
    Run.Le (evaluate bodies m task) (evaluate bodies n task) := by
  induction m generalizing n task with
  | zero => exact .of_exhausted _
  | succ m ih =>
    obtain ⟨n, rfl⟩ : ∃ k, n = k + 1 := ⟨n - 1, by omega⟩
    have le := fun task => ih (n := n) (by omega) task
    cases task with
    | dispatch => exact dispatch_le le (by omega) _ _
    | invoke => exact .bind (.refl _) fun _ => .perform (answer_le le (by omega)) _

end Machine

end Callable
