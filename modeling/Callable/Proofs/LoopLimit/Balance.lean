import Callable.Proofs.Growth
import Callable.Proofs.Stages
import Mathlib.Tactic.Ring

/-! What a limit of loops is worth. Each invocation of an applied closure counts one, and what
opens a loop is credited with all the requests that the loop may perform. The balance of a
journal is then bounded by what the loops around may still perform. -/

namespace Callable

namespace Entry

def invokesClosure : Entry → Bool
  | .invoked (.application _) _ => true
  | _ => false

def runsSuspension : Entry → Bool
  | .invoked (.suspension _) _ => true
  | _ => false

def leavesOver : Entry → Bool
  | .dispatched call => call.isSaturated && !call.leftOver.isEmpty
  | _ => false

/-- An application that leaves arguments over opens two loops, one for the tail calls of its body
and one for the application of the result. A suspension that is forced opens one. -/
def charge (limit : Nat) : Entry → Int
  | .invoked (.application _) _ => 1
  | .invoked (.suspension _) _ => -limit
  | .dispatched call => if call.isSaturated && !call.leftOver.isEmpty then -(1 + 2 * limit) else 0
  | _ => 0

theorem charge_eq (limit : Nat) (e : Entry) : e.charge limit =
    (if e.invokesClosure then 1 else 0) - (1 + 2 * limit) * (if e.leavesOver then 1 else 0) -
      limit * (if e.runsSuspension then 1 else 0) := by
  cases e with
  | dispatched call =>
    cases left : call.isSaturated && !call.leftOver.isEmpty <;>
      simp [charge, invokesClosure, leavesOver, runsSuspension, left]
  | invoked callee payload =>
    cases callee <;> simp [charge, invokesClosure, leavesOver, runsSuspension]
  | _ => simp [charge, invokesClosure, leavesOver, runsSuspension]

theorem charge_of_idle {limit : Nat} {e : Entry} (idle : e.Idle) : e.charge limit = 0 := by
  cases e with
  | dispatched | invoked => exact idle.elim
  | _ => rfl

variable {limit : Nat} {call : Call}

theorem charge_of_exact (none_left : call.surplus = []) :
    charge limit (.dispatched call) = 0 := by
  simp [charge, ← call.surplus_eq_leftOver, none_left]

theorem charge_of_excess (saturated : call.isSaturated = true) (left : call.surplus ≠ []) :
    charge limit (.dispatched call) = -(1 + 2 * limit) := by
  simp [charge, ← call.surplus_eq_leftOver, saturated, left]

theorem charge_of_unsaturated (unsaturated : call.isSaturated = false) :
    charge limit (.dispatched call) = 0 := by
  simp [charge, unsaturated]

end Entry

def balance (limit : Nat) (j : List Entry) : Int := (j.map (Entry.charge limit)).sum

section

variable {limit : Nat}

@[simp] theorem balance_nil : balance limit [] = 0 := rfl

@[simp] theorem balance_cons (e : Entry) (j : List Entry) :
    balance limit (e :: j) = e.charge limit + balance limit j := by
  simp [balance]

@[simp] theorem balance_append (j j' : List Entry) :
    balance limit (j ++ j') = balance limit j + balance limit j' := by
  simp [balance]

theorem balance_of_idle {entries : List Entry} (idle : ∀ e ∈ entries, e.Idle) :
    balance limit entries = 0 := by
  induction entries with
  | nil => rfl
  | cons e entries ih =>
    obtain ⟨first, rest⟩ := List.forall_mem_cons.mp idle
    rw [balance_cons, Entry.charge_of_idle first, ih rest, Int.add_zero]

theorem balance_eq (j : List Entry) : balance limit j = j.countP Entry.invokesClosure -
    (1 + 2 * limit) * j.countP Entry.leavesOver - limit * j.countP Entry.runsSuspension := by
  induction j with
  | nil => simp
  | cons e j ih =>
    rw [balance_cons, ih, Entry.charge_eq]
    simp only [List.countP_cons]
    push_cast
    ring

theorem Run.Idles.balance_eq {α : Type} {x : Run α} (h : x.Idles) {s : Store} {o : Outcome α}
    (limit : Nat) (e : x s = o) : balance limit o.store.journal = balance limit s.journal := by
  obtain ⟨since, journal, idle⟩ := h s
  rw [← Run.journal_of_eq e, journal, balance_append, balance_of_idle idle, Int.zero_add]

variable {settings : Settings} {s : Store}

@[simp] theorem balance_log (entries : List Entry) :
    balance limit (s.log entries).journal = balance limit entries + balance limit s.journal := by
  simp [Store.log, balance, List.sum_reverse]

@[simp] theorem balance_announce (call : Call) :
    balance limit ((Policy.loops settings).announce call) =
      Entry.charge limit (.dispatched call) := by
  unfold Policy.loops
  cases settings.traceCalls <;> simp [Entry.charge]

@[simp] theorem balance_enter (x : (Policy.loops settings).Context) (request : TailCall) :
    balance limit ((Policy.loops settings).enter x request) = 0 := by
  match x with
  | none => rfl
  | some ⟨_, none⟩ => rfl
  | some ⟨_, some _⟩ => rfl

end

def Loop.rest (limit : Nat) : Option Loop → Int
  | none => 0
  | some loop => limit - (loop.performed.getD 0).toNat

def Loop.KeptTo (limit : UInt64) : Option Loop → Prop
  | none => True
  | some loop => loop.performed.getD 0 ≤ limit

def Ending.Replies : Ending → Prop
  | .reply _ => True
  | .frame _ => False

namespace Job

variable {settings : Settings}

def KeptTo (limit : UInt64) : Job (Policy.loops settings).Context → Prop
  | .apply x _ | .run x _ _ _ _ | .invoke x _ _ | .resolve x _ _ => Loop.KeptTo limit x
  | .perform x _ p => Loop.KeptTo limit x ∧ p.Within (fun _ => True) Ending.Replies
  | .force _ _ => True

/-- By how much a job may raise the balance. A suspension pays for the loop around it. -/
def allowance (limit : Nat) : Job (Policy.loops settings).Context → Int
  | .apply x _ | .run x _ _ _ _ | .invoke x (.application _) _ => 1 + Loop.rest limit x
  | .invoke x (.direct _) _ | .perform x _ _ | .resolve x _ _ => Loop.rest limit x
  | .invoke _ (.suspension _) _ | .force _ _ => 0

end Job

section

variable {settings : Settings} {limit : UInt64} {x : (Policy.loops settings).Context}

theorem Loop.KeptTo.rest_nonneg (kept : KeptTo limit x) : 0 ≤ rest limit.toNat x := by
  match x with
  | none => exact Int.le_refl _
  | some loop =>
    have within := UInt64.le_iff_toNat_le.mp kept
    simp only [rest]
    omega

theorem Loop.rest_le (limit : Nat) (x : (Policy.loops settings).Context) :
    rest limit x ≤ limit := by
  match x with
  | none => simp [rest]
  | some loop =>
    simp only [rest]
    omega

theorem Job.KeptTo.allowance_nonneg {job : Job (Policy.loops settings).Context}
    (kept : job.KeptTo limit) : 0 ≤ job.allowance limit.toNat := by
  cases job with
  | apply x | run x | resolve x =>
    have rest := Loop.KeptTo.rest_nonneg kept
    simp only [allowance]
    omega
  | perform x => exact Loop.KeptTo.rest_nonneg kept.1
  | invoke x callee =>
    have rest := Loop.KeptTo.rest_nonneg kept
    cases callee <;> simp only [allowance] <;> omega
  | force => exact Int.le_refl _

theorem Loop.keptTo_own (settings : Settings) (state : Value) :
    KeptTo limit ((Policy.loops settings).own state) :=
  UInt64.zero_le

@[simp] theorem Loop.rest_own (state : Value) :
    rest limit.toNat ((Policy.loops settings).own state) = limit.toNat := by
  simp [rest, Policy.loops]

theorem Program.aside?_invoke {p : Program Ending} {callee : Callee} {payload : Payload}
    {next : Reply → Program Ending} (aside : p.aside? = some (callee, payload, next))
    (replies : p.Within (fun _ => True) Ending.Replies) :
    (Job.invoke (Policy.loops settings).back callee payload).allowance limit.toNat = 0 ∧
      ∀ r, (next r).Within (fun _ => True) Ending.Replies := by
  unfold Program.aside? at aside
  split at aside
  · cases aside
    exact ⟨rfl, replies.2⟩
  · cases aside
    exact ⟨rfl, replies.2⟩
  · cases aside

theorem Loop.KeptTo.next (limited : settings.loopLimit = some limit)
    (small : limit.toNat < 2 ^ 64 - 1) {y : (Policy.loops settings).Context} {payload : Payload}
    {request : TailCall} {state : Value} (kept : KeptTo limit x)
    (turn : (Policy.loops settings).turn x payload request = .ok (y, state)) :
    KeptTo limit y ∧ rest limit.toNat y + 1 = rest limit.toNat x := by
  obtain ⟨loop, rfl, within, rfl, rfl⟩ := Policy.loops_turn_eq_ok turn
  have within : loop.performed.getD 0 + 1 ≤ limit := by
    simpa [Settings.exceeded?, limited] using within
  have before : (loop.performed.getD 0).toNat ≤ limit.toNat := UInt64.le_iff_toNat_le.mp kept
  -- the count does not wrap around, since it is never beyond the limit
  have count : (loop.performed.getD 0 + 1).toNat = (loop.performed.getD 0).toNat + 1 := by
    rw [UInt64.toNat_add]
    simp only [UInt64.toNat_one]
    omega
  refine ⟨within, ?_⟩
  simp only [rest, Option.getD_some, count]
  omega

theorem Job.charge_add_rest_le (limit : Nat) (x : (Policy.loops settings).Context)
    (callee : Callee) (payload : Payload) :
    Entry.charge limit (.invoked callee payload) + Loop.rest limit x ≤
      (Job.invoke x callee payload).allowance limit := by
  have rest := Loop.rest_le limit x
  cases callee <;> simp only [Entry.charge, allowance] <;> omega

end

namespace Evaluates

variable {settings : Settings} {limit : UInt64} {c : Conduct}
  {job : Job (Policy.loops settings).Context} {s : Store}
  {hs : List (Handover (Policy.loops settings).Context)} {o : Outcome Reply}

/-- No evaluation raises the balance by more than its loops may perform. -/
theorem balance_le (limited : settings.loopLimit = some limit) (small : limit.toNat < 2 ^ 64 - 1)
    (replies : ∀ label payload, (c.body label payload).Within (fun _ => True) Ending.Replies)
    (h : Evaluates (.loops settings) c job s hs o) (kept : job.KeptTo limit) :
    balance limit.toNat o.store.journal ≤
      balance limit.toNat s.journal + job.allowance limit.toNat := by
  induction h with
  | cut | value | reply | refuse =>
    have nonneg := Job.KeptTo.allowance_nonneg kept
    simp only [Outcome.store_ok, Outcome.store_error]
    omega
  | bind unsaturated bound =>
    have nonneg := Job.KeptTo.allowance_nonneg kept
    have idle := (Run.Idles.bindSupplied _).balance_eq limit.toNat bound
    simp only [balance_log, balance_announce, Entry.charge_of_unsaturated unsaturated] at idle
    omega
  | exact saturated none_left run ih =>
    have body := ih kept
    simp only [balance_log, balance_announce, Entry.charge_of_exact none_left] at body
    simp only [Job.allowance] at body ⊢
    omega
  | excessStop saturated left run stops ih =>
    have nonneg := Job.KeptTo.allowance_nonneg kept
    have body := ih (Loop.keptTo_own settings _)
    simp only [balance_log, balance_announce, Entry.charge_of_excess saturated left] at body
    simp only [Job.allowance, Loop.rest_own] at body nonneg ⊢
    omega
  | excess saturated left run surplus ihr ihs =>
    -- what the application is credited with pays for the loop of its body and for that of the rest
    have nonneg := Loop.KeptTo.rest_nonneg kept
    have body := ihr (Loop.keptTo_own settings _)
    have onward := ihs (Loop.keptTo_own settings _)
    simp only [balance_log, balance_announce, Entry.charge_of_excess saturated left] at body
    simp only [balance_log, balance_cons, Entry.charge, balance_nil] at onward
    simp only [Job.allowance, Loop.rest_own, Outcome.store_ok] at body onward nonneg ⊢
    omega
  | excessOther saturated left run other ih =>
    have nonneg := Job.KeptTo.allowance_nonneg kept
    have body := ih (Loop.keptTo_own settings _)
    simp only [balance_log, balance_announce, Entry.charge_of_excess saturated left] at body
    simp only [Job.allowance, Loop.rest_own, Outcome.store_ok, balance_log, balance_cons,
      Entry.charge, balance_nil] at body nonneg ⊢
    omega
  | keep suspended rest ih => exact ih kept
  | forced executed first rest ihf ihr =>
    have forcing := ihf trivial
    have onward := ihr kept
    simp only [Job.allowance, Outcome.store_ok] at forcing onward ⊢
    omega
  | forceStop executed first stops ih =>
    have nonneg := Job.KeptTo.allowance_nonneg kept
    have forcing := ih trivial
    simp only [Job.allowance] at forcing nonneg ⊢
    omega
  | body all presented invoke ih =>
    have idle := (Run.Idles.presentedCaller _).balance_eq limit.toNat presented
    have invoked := ih kept
    simp only [Job.allowance, Outcome.store_ok] at idle invoked ⊢
    omega
  | again first rest ihf ihr =>
    have forcing := ihf (Loop.keptTo_own settings _)
    have onward := ihr trivial
    simp only [Job.allowance, Outcome.store_ok] at forcing onward ⊢
    omega
  | suspensionStop first stops ih => exact ih (Loop.keptTo_own settings _)
  | @invoke x callee payload s hs o perform ih =>
    have performed := ih ⟨kept, replies _ _⟩
    have paid := Job.charge_add_rest_le limit.toNat x callee payload
    simp only [balance_log, balance_cons, balance_nil, Job.allowance] at performed
    omega
  | request resolve ih =>
    have resolved := ih kept.1
    simp only [balance_log, balance_enter, Int.zero_add] at resolved
    exact resolved
  | frame inside => exact kept.2.elim
  | ask answered rest ih =>
    have idle := (Run.Idles.construct _).balance_eq limit.toNat answered
    have onward := ih ⟨kept.1, kept.2.2 _⟩
    simp only [Job.allowance, Outcome.store_ok] at idle onward ⊢
    omega
  | askHalt halted =>
    have nonneg := Job.KeptTo.allowance_nonneg kept
    have idle := (Run.Idles.construct _).balance_eq limit.toNat halted
    simp only [Outcome.store_error] at idle ⊢
    omega
  | aside aside first rest ihf ihr =>
    obtain ⟨free, onward⟩ := Program.aside?_invoke aside kept.2
    have beside := ihf trivial
    have after := ihr ⟨kept.1, onward _⟩
    rw [free] at beside
    simp only [Job.allowance, Outcome.store_ok] at beside after ⊢
    omega
  | asideHalt aside first ih =>
    have nonneg := Job.KeptTo.allowance_nonneg kept
    obtain ⟨free, -⟩ := Program.aside?_invoke aside kept.2
    have beside := ih trivial
    rw [free] at beside
    omega
  | next turn apply ih =>
    obtain ⟨kept', rest⟩ := Loop.KeptTo.next limited small kept turn
    have applied := ih kept'
    simp only [Job.allowance] at applied ⊢
    omega

end Evaluates

end Callable
