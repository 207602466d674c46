import Callable.Proofs.Ends
import Mathlib.Data.Fin.Tuple.Basic

/-! Names in scopes. Scopes are opened one after the other, each of them inside any of the earlier
ones, so that one scope may be around many. A name is looked up from the inside out and, in a frame,
from the last binding to the first. That comes to the last binding in the one list that the frames
make up, the outermost first: `Openings.lookup_is_flat`. -/

namespace Callable

abbrev Bindings (V : Type) := List (String × V)

/-- What the last binding of a name binds it to, if there is one. -/
inductive LastBound {V : Type} (name : String) : Bindings V → Option V → Prop where
  | unbound {bindings} (absent : name ∉ bindings.map (·.1)) : LastBound name bindings none
  | bound (before : Bindings V) (value : V) {after} (last : name ∉ after.map (·.1)) :
      LastBound name (before ++ (name, value) :: after) (some value)

/-- The bindings of a scope, and those of the scopes around it, the outermost first. -/
structure Frames (V : Type) where
  around : List (Bindings V)
  own : Bindings V

namespace Frames

variable {V : Type}

def all (frames : Frames V) : List (Bindings V) := frames.around ++ [frames.own]

def within (parent : Option (Frames V)) (own : Bindings V) : Frames V :=
  ⟨parent.elim [] all, own⟩

end Frames

namespace Scope

variable {V : Type} {name : String}

theorem lastBinding?_append (outer inner : Bindings V) :
    lastBinding? name (outer ++ inner) =
      (lastBinding? name inner).or (lastBinding? name outer) := by
  simp only [lastBinding?, List.reverse_append, List.find?_append, Option.map_or]

theorem lastBinding?_of_absent {bindings : Bindings V}
    (absent : name ∉ bindings.map (·.1)) : lastBinding? name bindings = none := by
  have other : bindings.reverse.find? (·.1 == name) = none := by
    refine List.find?_eq_none.mpr fun binding mem same => absent ?_
    exact List.mem_map.mpr ⟨binding, List.mem_reverse.mp mem, eq_of_beq same⟩
  rw [lastBinding?, other, Option.map_none]

theorem exists_lastBound (name : String) (bindings : Bindings V) :
    ∃ found, LastBound name bindings found := by
  induction bindings with
  | nil => exact ⟨none, .unbound List.not_mem_nil⟩
  | cons first rest ih =>
    obtain ⟨found, last⟩ := ih
    cases last with
    | bound before value last => exact ⟨some value, .bound (first :: before) value last⟩
    | unbound absent =>
      by_cases same : name = first.1
      · subst same
        exact ⟨some first.2, .bound [] first.2 absent⟩
      · exact ⟨none, .unbound (List.not_mem_cons_of_ne_of_not_mem same absent)⟩

theorem lastBinding?_eq_iff {bindings : Bindings V} {found : Option V} :
    lastBinding? name bindings = found ↔ LastBound name bindings found := by
  have finds {found} (last : LastBound name bindings found) :
      lastBinding? name bindings = found := by
    cases last with
    | unbound absent => exact lastBinding?_of_absent absent
    | bound before value last =>
      rw [List.append_cons, lastBinding?_append, lastBinding?_of_absent last, Option.none_or,
        lastBinding?_append]
      simp [lastBinding?]
  refine ⟨fun same => ?_, finds⟩
  obtain ⟨found', last⟩ := exists_lastBound name bindings
  rwa [← same, finds last]

theorem lookup?_inner (parent : Scope V) (bindings : Bindings V) :
    (inner parent bindings).lookup? name =
      (lastBinding? name bindings).or (parent.lookup? name) := by
  rw [lookup?]
  cases lastBinding? name bindings <;> rfl

theorem lookup?_eq (scope : Scope V) : scope.lookup? name = lastBinding? name scope.flat := by
  induction scope with
  | outermost bindings => rfl
  | inner parent bindings ih => rw [lookup?_inner, flat, lastBinding?_append, ih]

-- the last binding of "x" is in the outer frame, that of "y" in the inner one
example : (["x", "y", "z"].map fun name => lookup? name
    (.inner (.outermost [("x", 1), ("y", 2), ("x", 3)]) [("y", 4), ("y", 5)])) =
    [some 3, some 5, none] := by
  decide

/-- A scope that is made up of these frames. -/
structure Framed (scope : Scope V) (frames : Frames V) : Prop where
  flat : scope.flat = frames.all.flatten
  depth : scope.depth = frames.around.length

namespace Framed

variable {scope : Scope V} {frames : Frames V}

theorem outermost (bindings : Bindings V) :
    Framed (.outermost bindings) (.within none bindings) :=
  ⟨(List.append_nil bindings).symm, rfl⟩

theorem inner (framed : Framed scope frames) (bindings : Bindings V) :
    Framed (.inner scope bindings) (.within (some frames) bindings) where
  flat := by simp [Scope.flat, framed.flat, Frames.all, Frames.within]
  depth := by simp [Scope.depth, framed.depth, Frames.all, Frames.within]

theorem lastBound (framed : Framed scope frames) (name : String) :
    LastBound name frames.all.flatten (scope.lookup? name) :=
  lastBinding?_eq_iff.mp (framed.flat ▸ (lookup?_eq scope).symm)

end Framed

end Scope

/-- A call that opens a scope where there are so many already, of which one may be its parent. -/
inductive Opening (n : Nat) where
  | root
  | within (parent : Option (Fin n)) (bindings : Bindings Value)
  | extend (base : Fin n) (bindings : Bindings Value)

namespace Opening

variable {n : Nat}

def frames (existing : Fin n → Frames Value) : Opening n → Frames Value
  | .root => .within none []
  | .within parent bindings => .within (parent.map existing) bindings
  | .extend base bindings => .within (some (existing base)) bindings

def run (existing : Fin n → Scope Value) : Opening n → Run (Scope Value)
  | .root => Run.newScope none []
  | .within parent bindings => Run.newScope (parent.map existing) bindings
  | .extend base bindings => Run.newScope (some (existing base)) bindings

theorem run_framed {existing : Fin n → Scope Value} {frames : Fin n → Frames Value}
    (framed : ∀ i, (existing i).Framed (frames i)) (opening : Opening n) (s : Store) :
    ∃ scope t, opening.run existing s = .ok scope t ∧ scope.Framed (opening.frames frames) := by
  match opening with
  | .root => exact ⟨_, _, rfl, .outermost []⟩
  | .within none bindings => exact ⟨_, _, rfl, .outermost bindings⟩
  | .within (some parent) bindings => exact ⟨_, _, rfl, (framed parent).inner bindings⟩
  | .extend base bindings => exact ⟨_, _, rfl, (framed base).inner bindings⟩

end Opening

/-- Calls one after the other, beginning with `n` scopes; those that are opened come after them. -/
inductive Openings (n : Nat) : Nat → Type where
  | none : Openings n n
  | next {m} (earlier : Openings n m) (opening : Opening m) : Openings n (m + 1)

namespace Openings

variable {n m : Nat}

/-- Where a scope that was there to begin with is in the end. -/
def place : {m : Nat} → Openings n m → Fin n → Fin m
  | _, .none, i => i
  | _, .next earlier _, i => (earlier.place i).castSucc

def frames (existing : Fin n → Frames Value) : {m : Nat} → Openings n m → Fin m → Frames Value
  | _, .none => existing
  | _, .next earlier opening =>
    Fin.snoc (earlier.frames existing) (opening.frames (earlier.frames existing))

def run (existing : Fin n → Scope Value) : {m : Nat} → Openings n m → Run (Fin m → Scope Value)
  | _, .none => pure existing
  | _, .next earlier opening => do
    let opened ← earlier.run existing
    let scope ← opening.run opened
    return Fin.snoc opened scope

theorem run_framed {existing : Fin n → Scope Value} {frames : Fin n → Frames Value}
    (framed : ∀ i, (existing i).Framed (frames i)) (openings : Openings n m) (s : Store) :
    ∃ opened t, openings.run existing s = .ok opened t ∧
      (∀ i, (opened i).Framed (openings.frames frames i)) ∧
      ∀ i, opened (openings.place i) = existing i := by
  induction openings with
  | none => exact ⟨existing, s, rfl, framed, fun _ => rfl⟩
  | next earlier opening ih =>
    obtain ⟨opened, t, run, framed, kept⟩ := ih
    obtain ⟨scope, u, run', framed'⟩ := opening.run_framed framed t
    refine ⟨Fin.snoc opened scope, u, ?_, fun i => ?_, fun i => ?_⟩
    · exact (Run.bind_of_ok run).trans (Run.bind_of_ok run')
    · rw [Openings.frames]
      cases i using Fin.lastCases with
      | last => rwa [Fin.snoc_last, Fin.snoc_last]
      | cast i =>
        rw [Fin.snoc_castSucc, Fin.snoc_castSucc]
        exact framed i
    · rw [place, Fin.snoc_castSucc, kept]

/-- Whatever scopes are opened, one inside another: in each of them a name resolves to what it is
last bound to in all frames together, the outermost first, and the depth counts the frames around
its own. In an extension a name is what it is last bound to there, and otherwise what it is in the
base. What is opened later changes nothing for the scopes that there are. -/
theorem lookup_is_flat (openings : Openings 0 n) (later : Openings n m) (s : Store) :
    ∃ opened t, openings.run Fin.elim0 s = .ok opened t ∧
      (∀ i name, LastBound name (openings.frames Fin.elim0 i).all.flatten
        ((opened i).lookup? name)) ∧
      (∀ i, (opened i).depth = (openings.frames Fin.elim0 i).around.length) ∧
      (∀ i bindings, ∃ scope u, (Opening.extend i bindings).run opened t = .ok scope u ∧
        scope.depth = (opened i).depth + 1 ∧
        ∀ name, ∃ found, LastBound name bindings found ∧
          scope.lookup? name = found.or ((opened i).lookup? name)) ∧
      ∃ opened' u, later.run opened t = .ok opened' u ∧
        ∀ i name, (opened' (later.place i)).lookup? name = (opened i).lookup? name := by
  have nothing (i : Fin 0) : (Fin.elim0 i : Scope Value).Framed (Fin.elim0 i) := i.elim0
  obtain ⟨opened, t, run, framed, -⟩ := openings.run_framed nothing s
  obtain ⟨opened', u, run', -, kept⟩ := later.run_framed framed t
  refine ⟨opened, t, run, fun i name => (framed i).lastBound name, fun i => (framed i).depth,
    fun i bindings => ?_, opened', u, run', fun i name => by rw [kept]⟩
  refine ⟨.inner (opened i) bindings, _, rfl, rfl, fun name => ?_⟩
  exact ⟨_, Scope.lastBinding?_eq_iff.mp rfl, Scope.lookup?_inner (opened i) bindings⟩

end Openings

end Callable
