import Callable.Proofs.Evaluation

/-! The journal only grows: the newest entries come first, and the journal at any moment of an
evaluation is a suffix of the one that the evaluation leaves. -/

namespace Callable

/-- Entries that no application and no invocation of a body makes. -/
def Entry.Idle : Entry → Prop
  | .dispatched _ | .invoked _ _ => False
  | _ => True

namespace Run

variable {α β : Type}

/-- A run that only adds to the journal. -/
def Extends (x : Run α) : Prop := ∀ s, s.journal <:+ journal x s

namespace Extends

theorem same {x : Run α} (h : ∀ s, journal x s = s.journal) : Extends x :=
  fun s => h s ▸ List.suffix_refl _

theorem of_eq {x : Run α} (h : Extends x) {s : Store} {o : Outcome α} (e : x s = o) :
    s.journal <:+ o.store.journal :=
  journal_of_eq e ▸ h s

theorem journal_bind {f : α → Run β} (hf : ∀ a, Extends (f a)) (x : Run α) (s : Store) :
    journal x s <:+ journal (x >>= f) s := by
  cases e : x s with
  | error h t =>
    rw [journal_of_eq e, journal_of_eq (bind_of_error e)]
    exact List.suffix_refl _
  | ok a t =>
    rw [journal_of_eq e, journal_of_eq (bind_of_ok e)]
    exact hf a t

theorem bind {x : Run α} {f : α → Run β} (hx : Extends x) (hf : ∀ a, Extends (f a)) :
    Extends (x >>= f) :=
  fun s => (hx s).trans (journal_bind hf x s)

theorem record (e : Entry) : Extends (Run.record e) := fun s => List.suffix_cons e s.journal

end Extends

def Idles (x : Run α) : Prop :=
  ∀ s, ∃ since, journal x s = since ++ s.journal ∧ ∀ e ∈ since, e.Idle

namespace Idles

theorem same {x : Run α} (h : ∀ s, journal x s = s.journal) : Idles x :=
  fun s => ⟨[], h s, fun _ mem => nomatch mem⟩

theorem record {e : Entry} (idle : e.Idle) : Idles (Run.record e) :=
  fun _ => ⟨[e], rfl, List.forall_mem_singleton.mpr idle⟩

theorem bind {x : Run α} {f : α → Run β} (hx : Idles x) (hf : ∀ a, Idles (f a)) :
    Idles (x >>= f) := by
  intro s
  obtain ⟨since, journal, idle⟩ := hx s
  cases e : x s with
  | error h t =>
    rw [journal_of_eq e] at journal
    exact ⟨since, (journal_of_eq (bind_of_error e)).trans journal, idle⟩
  | ok a t =>
    obtain ⟨later, journal', idle'⟩ := hf a t
    rw [journal_of_eq e] at journal
    refine ⟨later ++ since, ?_, List.forall_mem_append.mpr ⟨idle', idle⟩⟩
    rw [journal_of_eq (bind_of_ok e), List.append_assoc, ← journal]
    exact journal'

theorem grows {x : Run α} (h : Idles x) : Extends x := by
  intro s
  obtain ⟨since, journal, -⟩ := h s
  exact ⟨since, journal.symm⟩

theorem newClosure (target : Target) (scope : Option (Scope Value)) (signature : Signature)
    (bound carried : List Value) : Idles (newClosure target scope signature bound carried) := by
  refine same fun s => ?_
  by_cases many : signature.arity < bound.length
  · exact journal_of_eq (newClosure_of_many many)
  · exact journal_of_eq (newClosure_of_fits many)

theorem bindSupplied (call : Call) : Idles (Machine.bindSupplied call) :=
  .bind (.record trivial) fun _ => .bind (.newClosure _ _ _ _ _) fun _ => .same fun _ => rfl

theorem presentedCaller (call : Call) : Idles (Machine.presentedCaller call) := by
  unfold Machine.presentedCaller
  cases call.caller with
  | some caller => exact .same fun _ => rfl
  | none =>
    cases call.closure.signature.passesCaller with
    | true => exact .bind (.record trivial) fun _ => .same fun _ => rfl
    | false => exact .same fun _ => rfl

theorem construct (r : Request) : Idles r.construct := by
  cases r with
  | newClosure =>
    refine .bind (.newClosure _ _ _ _ _) fun f => .bind (.record trivial) fun _ => ?_
    exact .same fun _ => rfl
  | newSuspension | newScope | newCaller =>
    exact .bind (.record trivial) fun _ => .same fun _ => rfl
  | note => exact .record trivial
  | apply dispatcher | applyInFrame dispatcher =>
    cases dispatcher <;> exact .same fun _ => rfl
  | force | resume | invoke => exact .same fun _ => rfl

end Idles

end Run

theorem Machine.answer_of_constructs {r : Request} (constructs : r.Constructs) {eval : Evaluator}
    {rounds : Nat} : answer eval rounds r = r.construct := by
  cases r with
  | apply | applyInFrame | force | resume | invoke => exact constructs.elim
  | _ => rfl

theorem Run.Idles.answer {r : Request} (constructs : r.Constructs) {eval : Evaluator}
    {rounds : Nat} : Idles (Machine.answer eval rounds r) :=
  Machine.answer_of_constructs constructs ▸ construct r

theorem Run.Idles.perform {α : Type} {p : Program α} {accepted : α → Prop}
    (constructs : p.Within Request.Constructs accepted) (eval : Evaluator) (rounds : Nat) :
    Idles (p.perform (Machine.answer eval rounds)) := by
  induction p with
  | done a => exact .same fun _ => rfl
  | ask r next ih => exact .bind (.answer constructs.1) fun a => ih a (constructs.2 a)

theorem Store.suffix_log (s : Store) (entries : List Entry) :
    s.journal <:+ (s.log entries).journal :=
  List.suffix_append _ _

namespace Evaluates

variable {π : Policy} {c : Conduct} {job : Job π.Context} {s : Store}
  {hs : List (Handover π.Context)} {o : Outcome Reply}

theorem journal_suffix (h : Evaluates π c job s hs o) : s.journal <:+ o.store.journal := by
  induction h with
  | cut | value | reply | refuse => exact List.suffix_refl _
  | bind _ bound =>
    exact (Store.suffix_log _ _).trans ((Run.Idles.bindSupplied _).grows.of_eq bound)
  | exact _ _ _ ih | excessStop _ _ _ _ ih => exact (Store.suffix_log _ _).trans ih
  | excess _ _ _ _ run surplus =>
    have body := (Store.suffix_log _ _).trans run
    exact (body.trans (Store.suffix_log _ _)).trans surplus
  | excessOther _ _ _ _ run =>
    have body := (Store.suffix_log _ _).trans run
    exact body.trans (Store.suffix_log _ _)
  | keep _ _ ih | forceStop _ _ _ ih | suspensionStop _ _ ih | frame _ ih | asideHalt _ _ ih
  | next _ _ ih => exact ih
  | forced _ _ _ first rest | again _ _ first rest | aside _ _ _ first rest =>
    exact first.trans rest
  | body _ presented _ ih => exact ((Run.Idles.presentedCaller _).grows.of_eq presented).trans ih
  | invoke _ ih | request _ ih => exact (Store.suffix_log _ _).trans ih
  | ask answered _ ih => exact ((Run.Idles.construct _).grows.of_eq answered).trans ih
  | askHalt halted => exact (Run.Idles.construct _).grows.of_eq halted

end Evaluates

end Callable
