import Callable.Json.Reader
import Callable.Proofs.Trimming

/-! Texts as tokens among blanks. Readers take tokens off the front of a text; a token begins with no
blank, so that it is what is left when the blanks before it are dropped. -/

namespace Callable.Json

/-- The front of a text is made of these tokens, each of them after any blanks. -/
inductive Lexes : List (List Char) → List Char → List Char → Prop where
  | nil {rest} : Lexes [] rest rest
  | cons {before token tokens text rest} (blank : ∀ c ∈ before, isBlank c = true)
      (onward : Lexes tokens text rest) : Lexes (token :: tokens) (before ++ token ++ text) rest

/-- A text is made of these tokens, with blanks before, between and after them. -/
def Spaced (tokens : List (List Char)) (text : List Char) : Prop :=
  ∃ rest, Lexes tokens text rest ∧ ∀ c ∈ rest, isBlank c = true

def Solid (token : List Char) : Prop := ∃ c rest, token = c :: rest ∧ isBlank c = false

section

variable {token text rest : List Char} {tokens tokens' : List (List Char)}

theorem lexes_append : Lexes (tokens ++ tokens') text rest ↔
    ∃ middle, Lexes tokens text middle ∧ Lexes tokens' middle rest := by
  constructor
  · intro h
    induction tokens generalizing text with
    | nil => exact ⟨text, .nil, h⟩
    | cons token tokens ih =>
      obtain _ | ⟨blank, onward⟩ := h
      obtain ⟨middle, first, second⟩ := ih onward
      exact ⟨middle, .cons blank first, second⟩
  · rintro ⟨middle, first, second⟩
    induction first with
    | nil => exact second
    | cons blank _ ih => exact .cons blank (ih second)

theorem Lexes.append {middle : List Char} (h : Lexes tokens text middle)
    (h' : Lexes tokens' middle rest) : Lexes (tokens ++ tokens') text rest :=
  lexes_append.mpr ⟨middle, h, h'⟩

theorem lexes_nil : Lexes [] text rest ↔ text = rest := by
  constructor
  · rintro ⟨⟩
    rfl
  · rintro rfl
    exact .nil

theorem lexes_cons (solid : Solid token) : Lexes (token :: tokens) text rest ↔
    ∃ middle, text.dropWhile isBlank = token ++ middle ∧ Lexes tokens middle rest := by
  obtain ⟨c, token, rfl, visible⟩ := solid
  constructor
  · rintro (_ | ⟨blank, onward⟩)
    refine ⟨_, ?_, onward⟩
    rw [List.append_assoc]
    refine Text.dropWhile_append_of_head blank fun d head => ?_
    cases head
    exact visible
  · rintro ⟨middle, core, onward⟩
    rw [← List.takeWhile_append_dropWhile (p := isBlank) (l := text), core, ← List.append_assoc]
    exact .cons (fun c => List.mem_takeWhile_imp) onward

theorem spaced_flatten (tokens : List (List Char)) : Spaced tokens tokens.flatten := by
  have none : ∀ c ∈ ([] : List Char), isBlank c = true := nofun
  refine ⟨[], ?_, none⟩
  induction tokens with
  | nil => exact .nil
  | cons token tokens ih => exact .cons none ih

theorem lexes_core {core : List Char} (solid : Solid token)
    (dropped : text.dropWhile isBlank = core) :
    Lexes (token :: tokens) core rest ↔ Lexes (token :: tokens) text rest := by
  rw [← dropped, lexes_cons solid, lexes_cons solid, List.dropWhile_idempotent]

theorem lexes_singleton (solid : Solid token) :
    Lexes [token] text rest ↔ text.dropWhile isBlank = token ++ rest := by
  simp [lexes_cons solid, lexes_nil]

end

namespace Reader

variable {α β : Type} {text rest : List Char}

theorem bind_of_ok {x : Reader α} {f : α → Reader β} {a : α} (h : x text = .ok (a, rest)) :
    (x >>= f) text = f a rest := by
  simp only [Bind.bind, StateT.bind, h, Except.bind]

theorem bind_of_error {x : Reader α} {f : α → Reader β} {p : Problem} (h : x text = .error p) :
    (x >>= f) text = .error p := by
  simp only [Bind.bind, StateT.bind, h, Except.bind]

theorem bind_eq_ok {x : Reader α} {f : α → Reader β} {b : β} :
    (x >>= f) text = .ok (b, rest) ↔
      ∃ a middle, x text = .ok (a, middle) ∧ f a middle = .ok (b, rest) := by
  cases first : x text with
  | error p => simp [bind_of_error first]
  | ok result =>
    rw [bind_of_ok first]
    refine ⟨fun second => ⟨_, _, rfl, second⟩, ?_⟩
    rintro ⟨a, middle, same, second⟩
    cases same
    exact second

theorem pure_eq_ok {a b : α} :
    (pure a : Reader α) text = .ok (b, rest) ↔ a = b ∧ text = rest := by
  constructor
  · intro same
    cases same
    exact ⟨rfl, rfl⟩
  · rintro ⟨rfl, rfl⟩
    rfl

theorem get_bind (f : List Char → Reader α) (text : List Char) : (get >>= f) text = f text text := rfl

theorem lift_eq_ok {x : Except Problem α} {a : α} :
    (liftM x : Reader α) text = .ok (a, rest) ↔ x = .ok a ∧ text = rest := by
  cases x with
  | error p => exact ⟨nofun, nofun⟩
  | ok b =>
    have read : (liftM (Except.ok b : Except Problem α) : Reader α) text = .ok (b, text) := rfl
    simp [read]

theorem ahead_bind (f : Char → Reader α) (text : List Char) :
    (ahead >>= f) text = match text.dropWhile isBlank with
      | [] => .error .ended
      | c :: rest => f c (c :: rest) := by
  have skipped : skipBlanks text = .ok ((), text.dropWhile isBlank) := rfl
  cases core : text.dropWhile isBlank with
  | nil =>
    rw [core] at skipped
    exact bind_of_error (bind_of_ok skipped)
  | cons c rest =>
    rw [core] at skipped
    exact bind_of_ok (bind_of_ok skipped)

theorem word_iff {cs : List Char} : word cs text = .ok ((), rest) ↔ text = cs ++ rest := by
  induction cs generalizing text with
  | nil => exact ⟨fun same => by cases same; rfl, fun same => by cases same; rfl⟩
  | cons c cs ih =>
    cases text with
    | nil => exact ⟨nofun, nofun⟩
    | cons d text =>
      have step : word (c :: cs) (d :: text) =
          (if c = d then do set text; word cs else throw .malformed : Reader Unit) (d :: text) := rfl
      rw [step]
      split
      · next same =>
        have onward : (do set text; word cs : Reader Unit) (d :: text) = word cs text := rfl
        rw [onward, ih, same, List.cons_append, List.cons_inj_right]
      · next other =>
        refine ⟨nofun, fun same => ?_⟩
        cases same
        exact absurd rfl other

end Reader

end Callable.Json
