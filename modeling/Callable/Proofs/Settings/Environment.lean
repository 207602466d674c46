import Callable.Proofs.Numeral
import Callable.Proofs.Trimming
import Callable.Settings.Environment

/-! Settings from the environment. What the two variables may be is said here without their reader: a
switch is one of seven words, a limit is a numeral of a 64-bit number after at most one plus sign,
and neither minds blanks around it. -/

namespace Callable.Settings

inductive Switch : List Char → Bool → Prop where
  | on {word} (listed : word ∈ ["1", "true", "yes"]) : Switch word.toList true
  | off {word} (listed : word ∈ ["0", "false", "no", ""]) : Switch word.toList false

/-- A decimal numeral, after at most one plus sign. -/
inductive Rendering : List Char → Nat → Prop where
  | plain {cs n} (numeral : Numeral cs n) : Rendering cs n
  | plus {cs n} (numeral : Numeral cs n) : Rendering ('+' :: cs) n

def Bound (cs : List Char) (limit : Option UInt64) : Prop :=
  ∃ n : UInt64, limit = some n ∧ Rendering cs n.toNat

/-- What a variable comes to: the default if it is not set, and otherwise what its text comes to
without the blanks around it. -/
inductive Comes {α : Type} (default : α) (reads : List Char → α → Prop) : Option String → α → Prop
  where
  | unset : Comes default reads none default
  | set {value core a} (trims : Text.Trims value.toList core) (read : reads core a) :
    Comes default reads (some value) a

section

variable {cs : List Char}

theorem truth?_iff {b : Bool} : truth? cs = some b ↔ Switch cs b := by
  constructor
  · unfold truth?
    intro read
    split at read
    · next among =>
      obtain ⟨word, listed, rfl⟩ := List.mem_map.mp among
      cases read
      exact .on listed
    · split at read
      · next among =>
        obtain ⟨word, listed, rfl⟩ := List.mem_map.mp among
        cases read
        exact .off listed
      · cases read
  · rintro (listed | listed)
    · exact if_pos (List.mem_map_of_mem listed)
    · simp only [List.mem_cons, List.not_mem_nil, or_false] at listed
      rcases listed with rfl | rfl | rfl | rfl <;> rfl

theorem decimal?_iff {n : Nat} : decimal? cs = some n ↔ Numeral cs n := by
  rw [decimal?, foldl_digits]
  constructor
  · intro read
    split at read
    · next digits => exact ⟨digits.1, List.all_eq_true.mp digits.2, Option.some.inj read⟩
    · cases read
  · intro numeral
    rw [if_pos ⟨numeral.nonempty, List.all_eq_true.mpr numeral.digits⟩, numeral.value]

theorem rendering_iff {n : Nat} :
    Rendering cs n ↔ Numeral (match cs with | '+' :: rest => rest | _ => cs) n := by
  constructor
  · rintro (numeral | numeral)
    · split
      · next rest => cases numeral.digits '+' (List.mem_cons_self ..)
      · exact numeral
    · exact numeral
  · intro numeral
    split at numeral
    · exact .plus numeral
    · exact .plain numeral

theorem limit?_iff {n : UInt64} : limit? cs = some n ↔ Rendering cs n.toNat := by
  rw [rendering_iff, ← decimal?_iff]
  unfold limit?
  cases decimal? (match cs with | '+' :: rest => rest | _ => cs) with
  | none => simp
  | some m =>
    have bound : n.toNat < UInt64.size := n.toNat_lt
    simp only [Option.bind_eq_bind, Option.bind_some, Option.some.injEq]
    split
    · next fits => rw [Option.some.injEq, ← UInt64.toNat_inj, UInt64.toNat_ofNat_of_lt' fits]
    · next beyond => simp; omega

theorem bound_iff {limit : Option UInt64} : some <$> limit? cs = some limit ↔ Bound cs limit := by
  simp only [Bound, ← limit?_iff]
  cases limit? cs <;> simp [eq_comm]

end

section

variable {α : Type} {default : α} {read : List Char → Option α} {reads : List Char → α → Prop}
  (exact : ∀ {cs a}, read cs = some a ↔ reads cs a) (name : String) {text : Option String}

include exact

theorem comes_some_iff {value : String} {a : α} :
    Comes default reads (some value) a ↔ read (Text.trim value.toList) = some a := by
  rw [exact]
  constructor
  · rintro (_ | ⟨trims, reads⟩)
    exact trims.eq_trim ▸ reads
  · exact .set (Text.trims_trim _)

theorem ofVariable_eq_ok_iff {a : α} :
    ofVariable default read name text = .ok a ↔ Comes default reads text a := by
  cases text with
  | none =>
    refine ⟨fun same => ?_, fun comes => ?_⟩
    · cases same
      exact .unset
    · cases comes
      rfl
  | some value =>
    rw [comes_some_iff exact, ofVariable]
    cases read (Text.trim value.toList) <;> simp

theorem ofVariable_eq_error_iff {invalid : InvalidVariable} :
    ofVariable default read name text = .error invalid ↔ invalid.name = name ∧
      text = some invalid.value ∧ ¬ ∃ a, Comes default reads text a := by
  cases text with
  | none => simp [ofVariable]
  | some value =>
    obtain ⟨name', value'⟩ := invalid
    simp only [comes_some_iff exact, ofVariable]
    cases read (Text.trim value.toList) <;> simp [eq_comm]

end

section

variable {cs before after : List Char} {n : Nat}

theorem isBlank_of_isDigit {c : Char} (h : c.isDigit = true) : Text.isBlank c = false := by
  have bounds : 48 ≤ c.toNat ∧ c.toNat ≤ 57 := Char.isDigit_iff_toNat.mp h
  simp [Text.isBlank]
  omega

theorem Rendering.not_blank (h : Rendering cs n) : ∀ c ∈ cs, Text.isBlank c = false := by
  cases h with
  | plain numeral => exact fun c mem => isBlank_of_isDigit (numeral.digits c mem)
  | plus numeral =>
    intro c mem
    rcases List.mem_cons.mp mem with rfl | mem
    · rfl
    · exact isBlank_of_isDigit (numeral.digits c mem)

theorem Rendering.trims (h : Rendering cs n) (blank : ∀ c ∈ before, Text.isBlank c = true)
    (blank' : ∀ c ∈ after, Text.isBlank c = true) : Text.Trims (before ++ cs ++ after) cs where
  padded := ⟨before, after, rfl, blank, blank'⟩
  first c head := h.not_blank c (List.mem_of_mem_head? head)
  last c tail := h.not_blank c (List.mem_of_getLast? tail)

theorem rendering_of_digits {sign : List Char} (signed : sign = [] ∨ sign = ['+'])
    (zeros n : Nat) : Rendering (sign ++ List.replicate zeros '0' ++ Nat.toDigits 10 n) n := by
  have numeral := (Numeral.toDigits n).zeros zeros
  rcases signed with rfl | rfl
  · exact .plain numeral
  · exact .plus numeral

end

/-- Settings come from two variables exactly if either of them is unset or well formed. If the switch
is not, it is reported, whatever the limit is; if only the limit is not, that is reported; and in
either case with the text as it was. Every padded rendering of a 64-bit number is that limit. -/
theorem ofEnvironment_exact (lookup : String → Option String) :
    (∀ settings, ofEnvironment lookup = .ok settings ↔
      Comes false Switch (lookup traceCallsVariable) settings.traceCalls ∧
        Comes none Bound (lookup loopLimitVariable) settings.loopLimit) ∧
    (∀ invalid, ofEnvironment lookup = .error invalid ↔
      (invalid.name = traceCallsVariable ∧ lookup traceCallsVariable = some invalid.value ∧
        ¬ ∃ on, Comes false Switch (lookup traceCallsVariable) on) ∨
      ((∃ on, Comes false Switch (lookup traceCallsVariable) on) ∧
        invalid.name = loopLimitVariable ∧ lookup loopLimitVariable = some invalid.value ∧
        ¬ ∃ limit, Comes none Bound (lookup loopLimitVariable) limit)) ∧
    ∀ (on : Bool) (n : UInt64) (before sign after : List Char) (zeros : Nat),
      (∀ c ∈ before, Text.isBlank c = true) → (∀ c ∈ after, Text.isBlank c = true) →
      (sign = [] ∨ sign = ['+']) → Comes false Switch (lookup traceCallsVariable) on →
      lookup loopLimitVariable = some (String.ofList (before ++
        (sign ++ List.replicate zeros '0' ++ Nat.toDigits 10 n.toNat) ++ after)) →
      ofEnvironment lookup = .ok ⟨on, some n⟩ := by
  have accepted (settings) : ofEnvironment lookup = .ok settings ↔
      Comes false Switch (lookup traceCallsVariable) settings.traceCalls ∧
        Comes none Bound (lookup loopLimitVariable) settings.loopLimit := by
    simp only [← ofVariable_eq_ok_iff truth?_iff traceCallsVariable,
      ← ofVariable_eq_ok_iff bound_iff loopLimitVariable, ofEnvironment]
    obtain ⟨on, limit⟩ := settings
    cases ofVariable false truth? traceCallsVariable (lookup traceCallsVariable) with
    | error invalid => simp [bind, Except.bind]
    | ok on' =>
      cases ofVariable none (some <$> limit? ·) loopLimitVariable (lookup loopLimitVariable) with
      | error invalid => simp [bind, Except.bind]
      | ok limit' => simp [bind, Except.bind, pure, Except.pure]
  refine ⟨accepted, fun invalid => ?_, ?_⟩
  · rw [← ofVariable_eq_error_iff truth?_iff traceCallsVariable,
      ← ofVariable_eq_error_iff bound_iff loopLimitVariable]
    simp only [← ofVariable_eq_ok_iff truth?_iff traceCallsVariable, ofEnvironment]
    cases ofVariable false truth? traceCallsVariable (lookup traceCallsVariable) with
    | error invalid => simp [bind, Except.bind]
    | ok on =>
      cases ofVariable none (some <$> limit? ·) loopLimitVariable (lookup loopLimitVariable) with
      | error invalid => simp [bind, Except.bind]
      | ok limit => simp [bind, Except.bind, pure, Except.pure]
  · intro on n before sign after zeros blank blank' signed switched set
    have rendering := rendering_of_digits signed zeros n.toNat
    refine (accepted _).mpr ⟨switched, set ▸ .set ?_ ⟨n, rfl, rendering⟩⟩
    rw [String.toList_ofList]
    exact rendering.trims blank blank'

end Callable.Settings
