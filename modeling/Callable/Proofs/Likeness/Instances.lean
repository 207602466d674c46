import Callable.Proofs.Likeness

/-! Particular likenesses: equality, the converse of a likeness, and the likeness of values up to
given identities and signatures. -/

namespace Callable

open List (Forall₂)

section

variable {V : Type} {value : V → V → Prop}

theorem Option.Rel.eq {r : V → V → Prop} (h : ∀ {v v'}, r v v' → v = v') {a a' : Option V}
    (ha : Option.Rel r a a') : a = a' := by
  cases ha with
  | none => rfl
  | some hv => rw [h hv]

theorem Option.Rel.refl {r : V → V → Prop} (h : ∀ v, r v v) (a : Option V) :
    Option.Rel r a a := by
  cases a with
  | none => exact .none
  | some v => exact .some (h v)

theorem Option.Rel.flip {r r' : V → V → Prop} (h : ∀ {v v'}, r v v' → r' v' v)
    {a a' : Option V} (ha : Option.Rel r a a') : Option.Rel r' a' a := by
  cases ha with
  | none => exact .none
  | some hv => exact .some (h hv)

theorem eq_of_forall₂ {r : V → V → Prop} (h : ∀ {v v'}, r v v' → v = v') {vs vs' : List V}
    (hvs : Forall₂ r vs vs') : vs = vs' := by
  induction hvs with
  | nil => rfl
  | cons hv _ ih => rw [h hv, ih]

theorem flip_of_forall₂ {r r' : V → V → Prop} (h : ∀ {v v'}, r v v' → r' v' v)
    {vs vs' : List V} (hvs : Forall₂ r vs vs') : Forall₂ r' vs' vs := by
  induction hvs with
  | nil => exact .nil
  | cons hv _ ih => exact .cons (h hv) ih

theorem Binding.Alike.eq {b b' : String × V} (h : Binding.Alike Eq b b') : b = b' := by
  cases h with
  | mk h => rw [h]

theorem Binding.Alike.flip {b b' : String × V} (h : Binding.Alike value b b') :
    Binding.Alike (fun v v' => value v' v) b' b := by
  cases h with
  | mk h => exact .mk h

theorem Scope.Alike.eq {p p' : Scope V} (h : Scope.Alike Eq p p') : p = p' := by
  induction h with
  | outermost h => rw [eq_of_forall₂ Binding.Alike.eq h]
  | inner _ h ih => rw [eq_of_forall₂ Binding.Alike.eq h, ih]

theorem Scope.Alike.flip {p p' : Scope V} (h : Scope.Alike value p p') :
    Scope.Alike (fun v v' => value v' v) p' p := by
  induction h with
  | outermost h => exact .outermost (flip_of_forall₂ Binding.Alike.flip h)
  | inner _ h ih => exact .inner ih (flip_of_forall₂ Binding.Alike.flip h)

theorem Scope.Alike.refl (h : ∀ v, value v v) (p : Scope V) : Scope.Alike value p p := by
  have bindings (bs : List (String × V)) : Forall₂ (Binding.Alike value) bs bs :=
    List.forall₂_same.mpr fun b _ => .mk (h b.2)
  induction p with
  | outermost bs => exact .outermost (bindings bs)
  | inner p bs ih => exact .inner ih (bindings bs)

end

namespace Likeness

def same : Likeness := ⟨Eq, Eq, Eq, True⟩

namespace same

theorem closure_refl (f : Closure Value) : same.closure f f :=
  .mk rfl (Option.Rel.refl (Scope.Alike.refl fun _ => rfl) _) rfl
    (List.forall₂_same.mpr fun _ _ => rfl) (List.forall₂_same.mpr fun _ _ => rfl)

theorem closure_eq {f f' : Closure Value} (h : same.closure f f') : f = f' := by
  obtain ⟨rfl, scope, rfl, bounds, carries⟩ := h
  rw [Option.Rel.eq Scope.Alike.eq scope, eq_of_forall₂ id bounds, eq_of_forall₂ id carries]

theorem suspension_refl (t : Suspension Value) : same.suspension t t :=
  .mk rfl (Scope.Alike.refl (fun _ => rfl) _)

theorem suspension_eq {t t' : Suspension Value} (h : same.suspension t t') : t = t' := by
  obtain ⟨rfl, scope⟩ := h
  rw [scope.eq]

theorem lawful : same.Lawful where
  typeName h := congrArg Value.typeName h
  closure := ⟨fun h => by cases h; exact closure_refl _, fun h => congrArg _ (closure_eq h)⟩
  suspension :=
    ⟨fun h => by cases h; exact suspension_refl _, fun h => congrArg _ (suspension_eq h)⟩
  access h := congrArg Signature.access h
  parameters h := congrArg Signature.parameters h

theorem values_refl (vs : List Value) : Forall₂ same.value vs vs :=
  List.forall₂_same.mpr fun _ _ => rfl

theorem scope_refl (p : Option (Scope Value)) : Option.Rel same.scope p p :=
  Option.Rel.refl (Scope.Alike.refl fun _ => rfl) p

theorem caller_refl (c : Option Caller) : Option.Rel same.caller c c :=
  Option.Rel.refl (fun c => ⟨scope_refl c.scope, rfl, rfl⟩) c

theorem caller_eq {c c' : Caller} (h : same.caller c c') : c = c' := by
  cases c
  cases c'
  rw [Caller.mk.injEq]
  exact ⟨Option.Rel.eq Scope.Alike.eq h.scope, h.name, h.location⟩

theorem payload_eq {p p' : Payload} (h : same.payload p p') : p = p' := by
  cases p
  cases p'
  rw [Payload.mk.injEq]
  exact ⟨Option.Rel.eq Scope.Alike.eq h.scope, Option.Rel.eq caller_eq h.caller, h.state,
    eq_of_forall₂ id h.arguments⟩

theorem call_refl (c : Call) : same.call c c :=
  ⟨closure_refl _, caller_refl _, rfl, values_refl _⟩

theorem call_eq {c c' : Call} (h : same.call c c') : c = c' := by
  cases c
  cases c'
  rw [Call.mk.injEq]
  exact ⟨closure_eq h.closure, Option.Rel.eq caller_eq h.caller, h.state,
    eq_of_forall₂ id h.arguments⟩

theorem reply_refl (r : Reply) : same.reply r r := by
  cases r with
  | ok v => exact .ok rfl
  | error fault =>
    rcases Settled.or_tailCall (.error fault : Reply) with settled | ⟨request, e⟩
    · exact .error (.settled settled)
    · cases e
      exact .error (.tailCall ⟨closure_refl _, values_refl _⟩)

theorem request_eq {q q' : TailCall} (h : same.request q q') : q = q' := by
  cases q
  cases q'
  rw [TailCall.mk.injEq]
  exact ⟨closure_eq h.closure, eq_of_forall₂ id h.arguments⟩

theorem reply_eq {r r' : Reply} (h : same.reply r r') : r = r' := by
  cases h with
  | ok h => rw [h]
  | error h =>
    cases h with
    | settled => rfl
    | tailCall h => rw [request_eq h]

theorem callee_eq {callee callee' : Callee} (h : same.callee callee callee') :
    callee = callee' := by
  cases h with
  | application h => rw [call_eq (h.whole trivial)]
  | suspension h => rw [suspension_eq h]
  | direct => rfl

theorem invocation_eq {i i' : Callee × Payload} (h : same.invocation i i') : i = i' := by
  exact Prod.ext (callee_eq h.1) (payload_eq h.2)

end same

variable (L : Likeness)

def flip : Likeness where
  identity i i' := L.identity i' i
  signature g g' := L.signature g' g
  value v v' := L.value v' v
  whole := L.whole

variable {L}

theorem scope_flip {p p' : Option (Scope Value)} (h : Option.Rel L.scope p p') :
    Option.Rel L.flip.scope p' p :=
  Option.Rel.flip Scope.Alike.flip h

theorem values_flip {vs vs' : List Value} (h : Forall₂ L.value vs vs') :
    Forall₂ L.flip.value vs' vs :=
  flip_of_forall₂ id h

theorem closure_flip {f f' : Closure Value} (h : L.closure f f') : L.flip.closure f' f := by
  obtain ⟨identity, scope, signature, bounds, carries⟩ := h
  exact .mk identity (scope_flip scope) signature (values_flip bounds) (values_flip carries)

theorem suspension_flip {t t' : Suspension Value} (h : L.suspension t t') :
    L.flip.suspension t' t := by
  obtain ⟨identity, scope⟩ := h
  exact .mk identity scope.flip

theorem caller_flip {c c' : Option Caller} (h : Option.Rel L.caller c c') :
    Option.Rel L.flip.caller c' c :=
  Option.Rel.flip (fun h => ⟨scope_flip h.scope, h.name.symm, h.location.symm⟩) h

theorem payload.flip {p p' : Payload} (h : L.payload p p') : L.flip.payload p' p :=
  ⟨scope_flip h.scope, caller_flip h.caller, h.state, values_flip h.arguments⟩

theorem call.flip {c c' : Call} (h : L.call c c') : L.flip.call c' c :=
  ⟨closure_flip h.closure, caller_flip h.caller, h.state, values_flip h.arguments⟩

theorem reply.flip {r r' : Reply} (h : L.reply r r') : L.flip.reply r' r := by
  cases h with
  | ok h => exact .ok h
  | error h =>
    cases h with
    | settled h => exact .error (.settled h)
    | tailCall h =>
      exact .error (.tailCall ⟨closure_flip h.closure, values_flip h.arguments⟩)

theorem Lawful.flip (lawful : L.Lawful) : L.flip.Lawful where
  typeName h := (lawful.typeName h).symm
  closure := ⟨fun h => closure_flip (lawful.closure.mp h),
    fun h => lawful.closure.mpr (closure_flip h)⟩
  suspension := ⟨fun h => suspension_flip (lawful.suspension.mp h),
    fun h => lawful.suspension.mpr (suspension_flip h)⟩
  access h := (lawful.access h).symm
  parameters h := (lawful.parameters h).symm

theorem construction.flip {r r' : Request} {link : r.Answer → r'.Answer → Prop}
    (h : L.construction r r' link) :
    ∃ link', L.flip.construction r' r link' ∧ ∀ a' a, link' a' a → link a a' := by
  cases h with
  | newClosure scope signature bounds carries =>
    refine ⟨_, .newClosure (scope_flip scope) signature (values_flip bounds)
      (values_flip carries), ?_⟩
    rintro a' a ⟨i', i, identity, e', e⟩
    exact ⟨i, i', identity, e, e'⟩
  | newSuspension scope =>
    refine ⟨_, .newSuspension scope.flip, ?_⟩
    rintro a' a ⟨i', i, identity, e', e⟩
    exact ⟨i, i', identity, e, e'⟩
  | newScope parent bindings =>
    exact ⟨_, .newScope (scope_flip parent) (flip_of_forall₂ Binding.Alike.flip bindings),
      fun _ _ link => link.symm⟩
  | newCaller scope => exact ⟨_, .newCaller (scope_flip scope), fun _ _ link => link.symm⟩
  | note text => exact ⟨_, .note text, fun _ _ link => link⟩

theorem program.flip {α : Type} {asides : Prop} {ending ending' : α → α → Prop}
    (hending : ∀ {a a'}, ending a a' → ending' a' a) {p p' : Program α}
    (h : L.program asides ending p p') : L.flip.program asides ending' p' p := by
  induction h with
  | done h => exact .done (hending h)
  | ask h _ ih =>
    obtain ⟨link', h', to_link⟩ := h.flip
    exact .ask h' fun a' a link => ih a a' (to_link a' a link)
  | resume allowed suspension states _ ih =>
    exact .resume allowed (suspension_flip suspension) states fun r' r h => ih r r' h.flip
  | invoke allowed payload _ ih => exact .invoke allowed payload.flip fun r' r h => ih r r' h.flip

/-- Values up to identities and signatures, as far as these are given to be alike. -/
def upTo (identity : Nat → Nat → Prop) (signature : Signature → Signature → Prop)
    (whole : Prop) : Likeness :=
  ⟨identity, signature, Value.Alike identity signature, whole⟩

theorem upTo_lawful {identity : Nat → Nat → Prop} {signature : Signature → Signature → Prop}
    {whole : Prop}
    (h : ∀ {g g'}, signature g g' → g.access = g'.access ∧ g.parameters = g'.parameters) :
    (upTo identity signature whole).Lawful where
  typeName h := by cases h <;> rfl
  closure := ⟨fun h => by cases h; assumption, .closure⟩
  suspension := ⟨fun h => by cases h; assumption, .suspension⟩
  access hg := (h hg).1
  parameters hg := (h hg).2

end Likeness

end Callable
