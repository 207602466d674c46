import Callable.Proofs.Growth.Machine

/-! Truncated runs. A run with less fuel, or with a smaller limit of its loops, goes as the run
with more does, until it is stopped; and what stops it is handed on as it is, by whatever was to
go on. So a limit only truncates runs: `Bodies.limit_truncates`. -/

namespace Callable

def Outcome.StoppedBy {α : Type} (stops : α → Prop) : Outcome α → Prop
  | .ok a _ => stops a
  | .error .exhausted _ => True
  | .error (.defect _) _ => False

/-- The run `x` goes as `y` does, to its end or until it is stopped. -/
structure Run.Truncates {α : Type} (stops : α → Prop) (x y : Run α) : Prop where
  grows : y.Extends
  same : ∀ s, x s = y s ∨
    Outcome.StoppedBy stops (x s) ∧ Run.journal x s <:+ Run.journal y s

namespace Run.Truncates

variable {α β : Type} {stops : α → Prop} {stops' : β → Prop} {x y : Run α}

theorem refl (grows : x.Extends) : Truncates stops x x := ⟨grows, fun _ => .inl rfl⟩

theorem pure (a : α) : Truncates stops (pure a) (pure a) := refl (.same fun _ => rfl)

theorem of_exhausted (grows : y.Extends) : Truncates stops (throw .exhausted) y :=
  ⟨grows, fun s => .inr ⟨trivial, grows s⟩⟩

theorem of_stopped {a : α} (stopped : stops a) (grows : y.Extends) :
    Truncates stops (Pure.pure a) y :=
  ⟨grows, fun s => .inr ⟨stopped, grows s⟩⟩

theorem journal (h : Truncates stops x y) (s : Store) : Run.journal x s <:+ Run.journal y s := by
  rcases h.same s with same | ⟨-, part⟩
  · exact Run.journal_of_eq same ▸ List.suffix_refl _
  · exact part

theorem bind {f g : α → Run β} (h : Truncates stops x y)
    (handed : ∀ a, stops a → ∃ b, stops' b ∧ f a = Pure.pure b)
    (onward : ∀ a, Truncates stops' (f a) (g a)) : Truncates stops' (x >>= f) (y >>= g) where
  grows := .bind h.grows fun a => (onward a).grows
  same s := by
    have part := Run.Extends.journal_bind (fun a => (onward a).grows) y s
    rcases h.same s with e | ⟨stopped, part_of⟩
    · cases hy : y s with
      | error halt t =>
        exact .inl ((Run.bind_of_error (e.trans hy)).trans (Run.bind_of_error hy).symm)
      | ok a t =>
        rw [Run.bind_of_ok (e.trans hy), Run.bind_of_ok hy,
          Run.journal_of_eq (Run.bind_of_ok (e.trans hy)), Run.journal_of_eq (Run.bind_of_ok hy)]
        exact (onward a).same t
    · -- what goes on after the stop only adds to what `y` leaves
      have shorter := part_of.trans part
      cases hx : x s with
      | error halt t =>
        rw [hx] at stopped
        rw [Run.journal_of_eq hx] at shorter
        rw [Run.bind_of_error hx, Run.journal_of_eq (Run.bind_of_error hx)]
        cases halt with
        | exhausted => exact .inr ⟨trivial, shorter⟩
        | defect => exact stopped.elim
      | ok a t =>
        rw [hx] at stopped
        rw [Run.journal_of_eq hx] at shorter
        obtain ⟨b, stopped', e⟩ := handed a stopped
        rw [Run.bind_of_ok hx, Run.journal_of_eq (Run.bind_of_ok hx), e]
        exact .inr ⟨stopped', shorter⟩

theorem after {f g : α → Run β} (grows : x.Extends)
    (onward : ∀ a, Truncates stops' (f a) (g a)) : Truncates stops' (x >>= f) (x >>= g) :=
  have begin : Truncates (fun _ => False) x x := refl grows
  begin.bind (fun _ stopped => stopped.elim) onward

end Run.Truncates

namespace Settings

structure Within (a b : Settings) : Prop where
  trace : a.traceCalls = b.traceCalls
  limit : ∀ limit', b.loopLimit = some limit' → ∃ limit, a.loopLimit = some limit ∧ limit ≤ limit'

def Stops {α : Type} (a : Settings) (answer : Except Fault α) : Prop :=
  ∃ limit, a.loopLimit = some limit ∧ answer = .error (.loopLimit limit)

variable {a b : Settings}

theorem Within.refl (a : Settings) : a.Within a :=
  ⟨rfl, fun limit set => ⟨limit, set, UInt64.le_refl limit⟩⟩

theorem exceeded?_eq_some {count limit : UInt64} :
    a.exceeded? count = some limit ↔ a.loopLimit = some limit ∧ limit < count := by
  simp [exceeded?, Option.filter_eq_some_iff]

theorem Within.exceeded? (h : a.Within b) {count : UInt64} (within : a.exceeded? count = none) :
    b.exceeded? count = none := by
  cases beyond : b.exceeded? count with
  | none => rfl
  | some limit' =>
    obtain ⟨set', less'⟩ := exceeded?_eq_some.mp beyond
    obtain ⟨limit, set, le⟩ := h.limit limit' set'
    have exceeded : a.exceeded? count = some limit :=
      exceeded?_eq_some.mpr ⟨set, UInt64.lt_of_le_of_lt le less'⟩
    cases within.symm.trans exceeded

end Settings

theorem Run.Truncates.bind_answer {α β : Type} {a : Settings} {x y : Run (Except Fault α)}
    {f g : Except Fault α → Run (Except Fault β)} (h : Truncates a.Stops x y)
    (hands : ∀ limit, f (.error (.loopLimit limit)) = Pure.pure (.error (.loopLimit limit)))
    (onward : ∀ answer, Truncates a.Stops (f answer) (g answer)) :
    Truncates a.Stops (x >>= f) (y >>= g) := by
  refine .bind h (fun answer stops => ?_) onward
  obtain ⟨limit, set, rfl⟩ := stops
  exact ⟨.error (.loopLimit limit), ⟨limit, set, rfl⟩, hands limit⟩

namespace Machine

/-- An evaluator that goes as another one does with a greater limit, until it is stopped. Bodies
that are invoked meet no limit. -/
structure Truncated (settings settings' : Settings) (eval eval' : Evaluator) : Prop where
  dispatch : ∀ call, Run.Truncates settings.Stops (eval (.dispatch settings call))
    (eval' (.dispatch settings' call))
  invoke : ∀ callee payload, Run.Truncates (fun _ => False) (eval (.invoke callee payload))
    (eval' (.invoke callee payload))

section

variable {bodies : Bodies} {settings settings' : Settings} {eval eval' : Evaluator} {m n : Nat}
  {state : Value}

variable (within : settings.Within settings') (adds : ∀ task, (eval' task).Extends)
  (truncated : Truncated settings settings' eval eval') (h : m ≤ n)

include within adds truncated h

theorem callLoop_truncates (performed : UInt64) (request : TailCall) :
    Run.Truncates settings.Stops (callLoop eval settings state m performed request)
      (callLoop eval' settings' state n performed request) := by
  induction m generalizing n performed request with
  | zero => exact .of_exhausted (.callLoop adds performed request)
  | succ m ih =>
    obtain ⟨n, rfl⟩ : ∃ k, n = k + 1 := ⟨n - 1, by omega⟩
    -- the smaller limit stops the loop here, or neither limit does
    cases exceeded : settings.exceeded? (performed + 1) with
    | some limit =>
      rw [callLoop_of_exceeded exceeded]
      exact .of_stopped ⟨limit, (Settings.exceeded?_eq_some.mp exceeded).1, rfl⟩
        (.callLoop adds performed request)
    | none =>
      rw [callLoop_of_within exceeded, callLoop_of_within (within.exceeded? exceeded)]
      refine .bind_answer (truncated.dispatch _) (fun _ => pursue_of_settled (.loopLimit _))
        fun reply => ?_
      rcases Settled.or_tailCall reply with settled | ⟨next, rfl⟩
      · rw [pursue_of_settled settled, pursue_of_settled settled]
        exact .pure reply
      · exact ih (by omega) _ next

theorem settle_truncates (reply : Reply) :
    Run.Truncates settings.Stops (settle eval m settings state reply)
      (settle eval' n settings' state reply) := by
  rcases Settled.or_tailCall reply with settled | ⟨request, rfl⟩
  · rw [settle_of_settled settled, settle_of_settled settled]
    exact .pure reply
  · rw [settle_tailCall, settle_tailCall]
    exact .after (.record _) fun _ => callLoop_truncates within adds truncated h _ _

theorem apply_truncates (call : Call) :
    Run.Truncates settings.Stops (apply eval m settings call) (apply eval' n settings' call) :=
  .bind_answer (truncated.dispatch call) (fun _ => settle_of_settled (.loopLimit _)) fun reply =>
    settle_truncates within adds truncated h reply

theorem force_truncates (t : Suspension Value) :
    Run.Truncates settings.Stops (force eval m settings t state)
      (force eval' n settings' t state) :=
  .bind (truncated.invoke _ _) (fun _ stopped => stopped.elim) fun reply =>
    settle_truncates within adds truncated h reply

theorem forceValue_truncates {a b : Nat} (steps : a ≤ b) (v : Value) :
    Run.Truncates settings.Stops (forceValue eval m settings state a v)
      (forceValue eval' n settings' state b v) := by
  induction a generalizing b v with
  | zero =>
    cases v with
    | suspension t => exact .of_exhausted (.forceValue adds b _)
    | _ => simp only [forceValue]; exact .pure _
  | succ a ih =>
    obtain ⟨b, rfl⟩ : ∃ k, b = k + 1 := ⟨b - 1, by omega⟩
    cases v with
    | suspension t =>
      refine .bind_answer (force_truncates within adds truncated h t) (fun _ => rfl)
        fun reply => ?_
      cases reply with
      | ok v => exact ih (by omega) v
      | error fault => exact .pure _
    | _ => simp only [forceValue]; exact .pure _

theorem forceArgument_truncates (p : Parameter) (v : Value) :
    Run.Truncates settings.Stops (forceArgument eval m settings state p v)
      (forceArgument eval' n settings' state p v) := by
  unfold forceArgument
  cases p.isSuspended with
  | true => exact .pure _
  | false => exact forceValue_truncates within adds truncated h h v

theorem forceArguments_truncates (ps : List Parameter) (vs : List Value) :
    Run.Truncates settings.Stops (forceArguments eval m settings state ps vs)
      (forceArguments eval' n settings' state ps vs) := by
  induction ps generalizing vs with
  | nil => cases vs <;> exact .pure _
  | cons p ps ih =>
    cases vs with
    | nil => exact .pure _
    | cons v vs =>
      refine .bind_answer (forceArgument_truncates within adds truncated h p v) (fun _ => rfl)
        fun first => ?_
      cases first with
      | error fault => exact .pure _
      | ok w =>
        refine .bind_answer (ih vs) (fun _ => rfl) fun rest => ?_
        cases rest <;> exact .pure _

theorem applySurplus_truncates (call : Call) (reply : Reply) :
    Run.Truncates settings.Stops (applySurplus eval m settings call reply)
      (applySurplus eval' n settings' call reply) := by
  cases reply with
  | error fault => exact .pure _
  | ok v =>
    refine .after (.record _) fun _ => ?_
    cases v with
    | closure next => exact apply_truncates within adds truncated h _
    | _ => exact .pure _

theorem finish_truncates (call : Call) (reply : Reply) :
    Run.Truncates settings.Stops (finish eval m settings call reply)
      (finish eval' n settings' call reply) := by
  by_cases left : call.surplus = []
  · rw [finish_of_exact left, finish_of_exact left]
    exact .pure reply
  · rw [finish_of_excess left, finish_of_excess left]
    exact .bind_answer (settle_truncates within adds truncated h reply) (fun _ => rfl)
      fun settled => applySurplus_truncates within adds truncated h call settled

theorem runBody_truncates (call : Call) :
    Run.Truncates settings.Stops (runBody eval m settings call)
      (runBody eval' n settings' call) := by
  refine .bind_answer (forceArguments_truncates within adds truncated h _ _) (fun _ => rfl)
    fun forced => ?_
  cases forced with
  | error fault => exact .pure _
  | ok arguments =>
    refine .after (Run.Idles.presentedCaller call).grows fun caller => ?_
    exact .bind (truncated.invoke _ _) (fun _ stopped => stopped.elim) fun reply =>
      finish_truncates within adds truncated h call reply

theorem dispatch_truncates (call : Call) :
    Run.Truncates settings.Stops (dispatch eval m settings call)
      (dispatch eval' n settings' call) := by
  have same : announce settings call = announce settings' call := by
    unfold announce
    rw [within.trace]
  unfold dispatch
  rw [same]
  refine .after (fun s => ?_) fun _ => ?_
  · rw [Run.journal_of_eq (announce_eq settings' call s)]
    exact Store.suffix_log s _
  · cases call.isSaturated with
    | true => exact runBody_truncates within adds truncated h call
    | false => exact .refl (Run.Idles.bindSupplied call).grows

omit within adds h

omit truncated in
theorem constructed_truncates {r : Request} {stops : r.Answer → Prop} (constructs : r.Constructs) :
    Run.Truncates stops (answer eval m r) (answer eval' n r) := by
  rw [answer_of_constructs constructs, answer_of_constructs constructs]
  exact .refl (Run.Idles.construct r).grows

theorem answer_truncates {r : Request} (undispatched : r.Undispatched) :
    Run.Truncates (fun _ => False) (answer eval m r) (answer eval' n r) := by
  cases r with
  | newClosure | newSuspension | newScope | newCaller | note =>
    exact constructed_truncates trivial
  | apply | applyInFrame | force => exact undispatched.elim
  | resume | invoke => exact truncated.invoke _ _

theorem perform_truncates {α : Type} {p : Program α} {accepted : α → Prop}
    (undispatched : p.Within Request.Undispatched accepted) :
    Run.Truncates (fun _ => False) (p.perform (answer eval m)) (p.perform (answer eval' n)) := by
  induction p with
  | done a => exact .pure a
  | ask r next ih =>
    exact .bind (answer_truncates truncated undispatched.1) (fun _ stopped => stopped.elim)
      fun a => ih a (undispatched.2 a)

end

theorem evaluate_truncates {bodies : Bodies} (undispatched : bodies.Undispatched)
    {settings settings' : Settings} (within : settings.Within settings') {m n : Nat} (h : m ≤ n) :
    Truncated settings settings' (evaluate bodies m) (evaluate bodies n) := by
  induction m generalizing n with
  | zero =>
    exact ⟨fun _ => .of_exhausted (.evaluate bodies n _),
      fun _ _ => .of_exhausted (.evaluate bodies n _)⟩
  | succ m ih =>
    obtain ⟨n, rfl⟩ : ∃ k, n = k + 1 := ⟨n - 1, by omega⟩
    have le : m ≤ n := by omega
    refine ⟨fun call => dispatch_truncates within (.evaluate bodies n) (ih le) le call,
      fun callee payload => ?_⟩
    exact .after (.record _) fun _ => perform_truncates (ih le) (undispatched _ _)

theorem run_truncates {bodies : Bodies} (undispatched : bodies.Undispatched)
    {settings settings' : Settings} (within : settings.Within settings') {m n : Nat} (h : m ≤ n)
    (call : Call) : Run.Truncates settings.Stops (apply (evaluate bodies m) m settings call)
      (apply (evaluate bodies n) n settings' call) :=
  apply_truncates within (.evaluate bodies n) (evaluate_truncates undispatched within h) h call

end Machine

namespace Bodies

open Machine

/-- A greater limit keeps a finished run as it is, unless the run has reached the limit; and then
the run is a beginning of the one with the greater limit, which may go on for ever. -/
theorem limit_truncates {bodies : Bodies} (undispatched : bodies.Undispatched)
    {settings settings' : Settings} (within : settings.Within settings') (call : Call) (s : Store)
    {o : Outcome Reply} (finished : o.Finished)
    (ends : Ends bodies (apply · · settings call) s o) :
    Ends bodies (apply · · settings' call) s o ∨
      ∃ limit t, settings.loopLimit = some limit ∧ o = .ok (.error (.loopLimit limit)) t ∧
        ∃ enough, ∀ fuel, enough ≤ fuel →
          t.journal <:+ Run.journal (apply (evaluate bodies fuel) fuel settings' call) s := by
  obtain ⟨enough, run⟩ := ends
  have run : apply (evaluate bodies enough) enough settings call s = o :=
    run enough (Nat.le_refl _)
  have truncated {n} (more : enough ≤ n) : o = apply (evaluate bodies n) n settings' call s ∨
      Outcome.StoppedBy settings.Stops o ∧
        o.store.journal <:+ Run.journal (apply (evaluate bodies n) n settings' call) s := by
    have truncates := (run_truncates undispatched within more call).same s
    rwa [run, Run.journal_of_eq run] at truncates
  rcases truncated (Nat.le_refl _) with same | ⟨stopped, -⟩
  · exact .inl (.of_fuel (fun le => apply_le (evaluate_le _ le) le _ _) same.symm finished)
  · right
    have part (n) (more : enough ≤ n) :
        o.store.journal <:+ Run.journal (apply (evaluate bodies n) n settings' call) s := by
      rcases truncated more with same | ⟨-, part⟩
      · exact Run.journal_of_eq same.symm ▸ List.suffix_refl _
      · exact part
    cases o with
    | error halt t =>
      cases halt with
      | exhausted => exact finished.elim
      | defect => exact stopped.elim
    | ok reply t =>
      obtain ⟨limit, set, rfl⟩ := stopped
      exact ⟨limit, t, set, rfl, enough, part⟩

def descending : Bodies
  | 0, _ => .done (.ok .unit)
  | label + 1, _ =>
    .ask (.newClosure ⟨"descend", label, none⟩ none (.parameterless .loop .withheld) [] [])
      fun next => .done (.error (.tailCall ⟨next, []⟩))

theorem descending_undispatched : Undispatched descending := fun label _ =>
  match label with
  | 0 => trivial
  | _ + 1 => ⟨trivial, fun _ => trivial⟩

def descent (label : Nat) : Call :=
  ⟨⟨0, ⟨"descend", label, none⟩, none, .parameterless .loop .withheld, [], []⟩, none, .unit, []⟩

theorem descent_run (limit : Option UInt64) (fuel : Nat) {o : Outcome Reply} (finished : o.Finished)
    (run : apply (evaluate descending fuel) fuel { loopLimit := limit } (descent 2) {} = o) :
    Ends descending (apply · · { loopLimit := limit } (descent 2)) {} o :=
  .of_fuel (fun le => apply_le (evaluate_le _ le) le _ _) run finished

theorem descent_truncated : descending.Undispatched ∧
    Settings.Within { loopLimit := some 1 } {} ∧ ∃ t t',
      Ends descending (apply · · { loopLimit := some 1 } (descent 2)) {}
        (.ok (.error (.loopLimit 1)) t) ∧
      Ends descending (apply · · {} (descent 2)) {} (.ok (.ok .unit) t') ∧
      t.journal <:+ t'.journal := by
  have within : Settings.Within { loopLimit := some 1 } {} := ⟨rfl, fun _ set => nomatch set⟩
  have stopped : Ends descending (apply · · { loopLimit := some 1 } (descent 2)) {}
      (.ok (.error (.loopLimit 1)) _) := descent_run (some 1) 9 trivial rfl
  have ended : Ends descending (apply · · {} (descent 2)) {} (.ok (.ok .unit) _) :=
    descent_run none 9 trivial rfl
  refine ⟨descending_undispatched, within, _, _, stopped, ended, ?_⟩
  rcases limit_truncates descending_undispatched within (descent 2) {}
    (Outcome.finished_ok _ _) stopped with
    same | ⟨limit, t, -, e, enough, part⟩
  · cases same.unique ended
  · cases e
    obtain ⟨n, run⟩ := ended
    have late := part (max enough n) (by omega)
    rwa [Run.journal_of_eq (run (max enough n) (by omega))] at late

end Bodies

end Callable
