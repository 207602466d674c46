import Callable.Machine

/-! Conducts: bodies that apply nothing before they end. Such a body constructs what it needs,
may run other bodies without a dispatcher, and ends with a reply of its own or with the reply to
one application from inside. -/

namespace Callable

def Signature.parameterless (strategy : Strategy) (access : FrameAccess) : Signature where
  strategy
  access
  parameters := []
  ordered := rfl

namespace Request

def Constructs : Request → Prop
  | .newClosure .. | .newSuspension .. | .newScope .. | .newCaller .. | .note .. => True
  | _ => False

def Undispatched : Request → Prop
  | .apply .. | .applyInFrame .. | .force .. => False
  | _ => True

end Request

namespace Program

variable {α β : Type}

/-- Whatever it is answered, the program makes allowed requests only and ends as accepted. -/
def Within (allowed : Request → Prop) (accepted : α → Prop) : Program α → Prop
  | .done a => accepted a
  | .ask r next => allowed r ∧ ∀ answer, (next answer).Within allowed accepted

variable {allowed allowed' : Request → Prop} {accepted accepted' : α → Prop}

theorem Within.mono {p : Program α} (h : p.Within allowed accepted)
    (hr : ∀ r, allowed r → allowed' r) (ha : ∀ a, accepted a → accepted' a) :
    p.Within allowed' accepted' := by
  induction p with
  | done a => exact ha a h
  | ask r next ih => exact ⟨hr r h.1, fun answer => ih answer (h.2 answer)⟩

theorem Within.bind {p : Program α} {f : α → Program β} {post : β → Prop}
    (h : p.Within allowed accepted) (hf : ∀ a, accepted a → (f a).Within allowed post) :
    (p.bind f).Within allowed post := by
  induction p with
  | done a => exact hf a h
  | ask r next ih => exact ⟨h.1, fun answer => ih answer (h.2 answer)⟩

end Program

/-- Bodies that apply nothing. -/
def Bodies.Undispatched (bodies : Bodies) : Prop := ∀ label payload,
  (bodies label payload).Within Request.Undispatched fun _ => True

/-- What a body comes to: a reply, or the reply to an application from inside, unchanged. -/
inductive Ending where
  | reply (r : Reply)
  | frame (call : Call)

def Ending.program (settings : Settings) : Ending → Program Reply
  | .reply r => .done r
  | .frame call => .ask (.applyInFrame (.currying settings) call) .done

def Ending.KeepsState (payload : Payload) : Ending → Prop
  | .reply _ => True
  | .frame call => call.state = payload.state

structure Conduct where
  body : Nat → Payload → Program Ending
  undispatched : ∀ label payload, (body label payload).Within Request.Undispatched fun _ => True

namespace Conduct

def bodies (c : Conduct) (settings : Settings) : Bodies := fun label payload =>
  (c.body label payload).bind (Ending.program settings)

/-- Bodies that construct, and then reply, ask for a tail call or apply in a state of their
choice. -/
def Constructing (c : Conduct) : Prop := ∀ label payload,
  (c.body label payload).Within Request.Constructs fun _ => True

/-- Bodies that construct, and then reply, ask for a tail call or apply in their own state. -/
def KeepsState (c : Conduct) : Prop := ∀ label payload,
  (c.body label payload).Within Request.Constructs (Ending.KeepsState payload)

theorem KeepsState.constructing {c : Conduct} (h : c.KeepsState) : c.Constructing :=
  fun label payload => (h label payload).mono (fun _ => id) fun _ _ => trivial

def ofBodies (bodies : Bodies)
    (h : ∀ label payload, (bodies label payload).Within Request.Undispatched fun _ => True) :
    Conduct where
  body label payload := (bodies label payload).bind fun r => .done (.reply r)
  undispatched label payload := (h label payload).bind fun _ _ => trivial

theorem bodies_ofBodies (b : Bodies)
    (h : ∀ label payload, (b label payload).Within Request.Undispatched fun _ => True)
    (settings : Settings) : (ofBodies b h).bodies settings = b := by
  funext label payload
  simp only [bodies, ofBodies, Program.bind_assoc, Program.bind, Ending.program]
  exact Program.bind_done _

/-- Bodies of which the first applies the second, in a state that it makes of its own; the second
asks for a tail call of the third, which answers its state. Signatures have the given strategy. -/
def relay (strategy : Strategy) (f : Value → Value) : Conduct where
  body
    | 0, payload => .ask (.newClosure ⟨"middle", 1, none⟩ none ⟨strategy, .withheld, [], rfl⟩ [] [])
      fun g => .done (.frame ⟨g, none, f payload.state, []⟩)
    | 1, _ => .ask (.newClosure ⟨"last", 2, none⟩ none ⟨strategy, .withheld, [], rfl⟩ [] [])
      fun g => .done (.reply (.error (.tailCall ⟨g, []⟩)))
    | _, payload => .done (.reply (.ok payload.state))
  undispatched label _ :=
    match label with
    | 0 | 1 => ⟨trivial, fun _ => trivial⟩
    | _ + 2 => trivial

def relayed (strategy : Strategy) (state : Value) : Call :=
  ⟨⟨0, ⟨"first", 0, none⟩, none, ⟨strategy, .withheld, [], rfl⟩, [], []⟩, none, state, []⟩

theorem relay_constructing (strategy : Strategy) (f : Value → Value) :
    (relay strategy f).Constructing := fun label _ =>
  match label with
  | 0 | 1 => ⟨trivial, fun _ => trivial⟩
  | _ + 2 => trivial

theorem relay_keepsState (strategy : Strategy) : (relay strategy id).KeepsState := fun label _ =>
  match label with
  | 0 | 1 => ⟨trivial, fun _ => by first | rfl | trivial⟩
  | _ + 2 => trivial

end Conduct

end Callable
