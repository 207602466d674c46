import Callable.Value
import Mathlib.Algebra.Group.Nat.Defs
import Mathlib.Data.List.Forall2
import Mathlib.Order.Monotone.Basic

/-! Equality of values. Floats are equal if they stand for the same number, arrays if their items are
equal one by one, closures and suspensions if they have the same identity. Equality is symmetric and
transitive, and a value equals itself unless there is a NaN in it, however deep inside arrays. -/

namespace Callable

namespace Double

/-- The magnitude as a multiple of the least positive double. An infinity counts as the power of two
that would come after the greatest finite double. -/
def scaled (x : Double) : Nat := x.significand * 2 ^ (x.exponent + 1074).toNat

/-- The number that a double stands for, over the least positive double; a NaN stands for none. -/
def number? (x : Double) : Option Int :=
  if x.isNaN then none else some (if x.isNegative then -x.scaled else x.scaled)

def scale (m : Nat) : Nat :=
  if m < leadingBit then m else (m % leadingBit + leadingBit) * 2 ^ (m / leadingBit - 1)

theorem scaled_eq_scale (x : Double) : x.scaled = scale x.magnitude := by
  have shifted : (x.exponent + 1074).toNat = max 1 (x.magnitude / leadingBit) - 1 := by
    unfold exponent
    omega
  unfold scaled scale significand
  rw [shifted]
  split
  · next subnormal => simp [Nat.div_eq_of_lt subnormal]
  · next normal =>
    have whole : 1 ≤ x.magnitude / leadingBit := by
      rw [Nat.le_div_iff_mul_le (by decide)]
      omega
    rw [Nat.max_eq_right whole]

theorem scale_lt_succ (m : Nat) : scale m < scale (m + 1) := by
  unfold scale
  rcases Nat.lt_trichotomy (m + 1) leadingBit with small | least | large
  · rw [if_pos (by omega), if_pos small]
    omega
  · rw [if_pos (by omega), if_neg (by omega), least, Nat.mod_self, Nat.div_self (by decide)]
    omega
  · rw [if_neg (by omega), if_neg (by omega)]
    have positive : 0 < 2 ^ (m / leadingBit - 1) := Nat.two_pow_pos _
    have whole : 1 ≤ m / leadingBit := by
      rw [Nat.le_div_iff_mul_le (by decide)]
      omega
    by_cases last : m % leadingBit + 1 = leadingBit
    · -- the next double is a power of two, with the least significand and the next exponent
      have quotient : (m + 1) / leadingBit = m / leadingBit + 1 := by
        unfold leadingBit at *
        omega
      have remainder : (m + 1) % leadingBit = 0 := by
        unfold leadingBit at *
        omega
      have double : 2 ^ (m / leadingBit) = 2 * 2 ^ (m / leadingBit - 1) := by
        rw [← Nat.pow_succ', Nat.succ_eq_add_one, Nat.sub_add_cancel whole]
      rw [quotient, remainder, Nat.add_sub_cancel, double, Nat.zero_add, ← Nat.mul_assoc]
      exact Nat.mul_lt_mul_of_pos_right (by omega) positive
    · have quotient : (m + 1) / leadingBit = m / leadingBit := by
        unfold leadingBit at *
        omega
      have remainder : (m + 1) % leadingBit = m % leadingBit + 1 := by
        unfold leadingBit at *
        omega
      rw [quotient, remainder]
      exact Nat.mul_lt_mul_of_pos_right (by omega) positive

theorem scale_strictMono : StrictMono scale := strictMono_nat_of_lt_succ scale_lt_succ

variable {x y : Double}

theorem scaled_inj : x.scaled = y.scaled ↔ x.magnitude = y.magnitude := by
  rw [scaled_eq_scale, scaled_eq_scale, scale_strictMono.injective.eq_iff]

theorem scaled_eq_zero : x.scaled = 0 ↔ x.magnitude = 0 := by
  rw [scaled_eq_scale]
  exact scale_strictMono.injective.eq_iff' rfl

theorem bits_eq_of_parts (sign : x.isNegative = y.isNegative) (size : x.magnitude = y.magnitude) :
    x.bits = y.bits := by
  have bound := x.bits.toNat_lt
  have bound' := y.bits.toNat_lt
  simp only [isNegative, decide_eq_decide] at sign
  simp only [magnitude, signBit] at sign size
  exact UInt64.toNat_inj.mp (by omega)

/-- Floats are equal if they stand for the same number. -/
theorem equals_iff : x.equals y = true ↔ ∃ n, x.number? = some n ∧ y.number? = some n := by
  cases nan : x.isNaN with
  | true => simp [equals, number?, nan]
  | false =>
    cases nan' : y.isNaN with
    | true => simp [equals, number?, nan']
    | false =>
      simp only [equals, number?, nan, nan', Bool.not_false, Bool.true_and, Bool.or_eq_true,
        beq_iff_eq, Bool.and_eq_true, Bool.false_eq_true, if_false, Option.some.injEq,
        exists_eq_left']
      constructor
      · rintro (same | ⟨zero, zero'⟩)
        · obtain rfl : x = y := congrArg Double.mk same
          rfl
        · simp [scaled_eq_zero.mpr zero, scaled_eq_zero.mpr zero']
      · intro same
        by_cases sign : x.isNegative = y.isNegative
        · rw [sign] at same
          have size : x.scaled = y.scaled := by split at same <;> omega
          exact .inl (bits_eq_of_parts sign (scaled_inj.mp size))
        · have zero : x.scaled = 0 ∧ y.scaled = 0 := by
            have opposite : x.isNegative = !y.isNegative := Bool.eq_not.mpr sign
            rw [opposite] at same
            cases negative : y.isNegative <;>
              simp only [negative, Bool.not_true, Bool.not_false, Bool.false_eq_true, if_true,
                if_false] at same <;> omega
          exact .inr ⟨scaled_eq_zero.mp zero.1, scaled_eq_zero.mp zero.2⟩

theorem equals_symm (h : x.equals y = true) : y.equals x = true := by
  obtain ⟨n, first, second⟩ := equals_iff.mp h
  exact equals_iff.mpr ⟨n, second, first⟩

theorem equals_trans {z : Double} (h : x.equals y = true) (h' : y.equals z = true) :
    x.equals z = true := by
  obtain ⟨n, first, second⟩ := equals_iff.mp h
  obtain ⟨m, second', third⟩ := equals_iff.mp h'
  obtain rfl : n = m := Option.some.inj (second.symm.trans second')
  exact equals_iff.mpr ⟨n, first, third⟩

theorem equals_self_iff : x.equals x = true ↔ x.isNaN = false := by
  simp only [equals_iff, and_self, number?]
  cases x.isNaN <;> simp

end Double

namespace Value

/-- A NaN is the value, or is in an item of it. -/
inductive HasNaN : Value → Prop where
  | float {x} (nan : x.isNaN = true) : HasNaN (.float x)
  | array {items v} (mem : v ∈ items) (inside : HasNaN v) : HasNaN (.array items)

@[simp] theorem hasNaN_float {x : Double} : HasNaN (.float x) ↔ x.isNaN = true :=
  ⟨fun h => by cases h; assumption, .float⟩

@[simp] theorem hasNaN_array {items : List Value} :
    HasNaN (.array items) ↔ ∃ v ∈ items, v.HasNaN :=
  ⟨fun h => by cases h with | array mem inside => exact ⟨_, mem, inside⟩,
    fun ⟨_, mem, inside⟩ => .array mem inside⟩

theorem array_induction {motive : Value → Prop}
    (array : ∀ items, (∀ v ∈ items, motive v) → motive (.array items))
    (plain : ∀ v, (∀ items, v ≠ .array items) → motive v) : ∀ v, motive v
  | .array items => array items fun v _ => array_induction array plain v
  | .integer _ | .float _ | .boolean _ | .string _ | .unit | .closure _ | .suspension _ =>
    plain _ fun _ => Value.noConfusion

variable {u v w : Value}

theorem itemsEqual_iff {as bs : List Value} :
    itemsEqual as bs = true ↔ List.Forall₂ (fun a b => a.equals b = true) as bs := by
  induction as generalizing bs with
  | nil => cases bs <;> simp [itemsEqual]
  | cons a as ih => cases bs <;> simp [itemsEqual, ih]

@[simp] theorem array_equals_iff {as bs : List Value} : (Value.array as).equals (.array bs) = true ↔
    List.Forall₂ (fun a b => a.equals b = true) as bs := by
  rw [equals, itemsEqual_iff]

theorem eq_array_of_equals {as : List Value} (h : (Value.array as).equals v = true) :
    ∃ bs, v = .array bs := by
  cases v with
  | array bs => exact ⟨bs, rfl⟩
  | _ => cases h

theorem equals_symm (h : u.equals v = true) : v.equals u = true := by
  induction u using array_induction generalizing v with
  | array items ih =>
    obtain ⟨items', rfl⟩ := eq_array_of_equals h
    rw [array_equals_iff] at *
    have each := (List.forall₂_and_left _ _).mpr ⟨fun a mem => @ih a mem, h⟩
    exact (each.imp fun _ _ ⟨symm, same⟩ => symm same).flip
  | plain u other =>
    cases u with
    | array items => exact absurd rfl (other items)
    | float x =>
      cases v with
      | float y => exact Double.equals_symm h
      | _ => cases h
    | _ =>
      cases v <;> simp_all [equals]

theorem equals_trans (h : u.equals v = true) (h' : v.equals w = true) : u.equals w = true := by
  induction u using array_induction generalizing v w with
  | array items ih =>
    obtain ⟨items', rfl⟩ := eq_array_of_equals h
    obtain ⟨items'', rfl⟩ := eq_array_of_equals h'
    rw [array_equals_iff] at *
    have each := (List.forall₂_and_left _ _).mpr ⟨fun a mem => @ih a mem, h⟩
    clear h ih
    induction each generalizing items'' with
    | nil => exact h'
    | cons first _ rest =>
      cases h' with
      | cons same same' => exact .cons (first.1 first.2 same) (rest _ same')
  | plain u other =>
    cases u with
    | array items => exact absurd rfl (other items)
    | float x =>
      cases v with
      | float y =>
        cases w with
        | float z => exact Double.equals_trans h h'
        | _ => cases h'
      | _ => cases h
    | _ => cases v <;> cases w <;> simp_all [equals]

theorem equals_self_iff : v.equals v = true ↔ ¬ v.HasNaN := by
  induction v using array_induction with
  | array items ih =>
    rw [array_equals_iff, List.forall₂_same, hasNaN_array]
    simp only [not_exists, not_and]
    exact forall₂_congr ih
  | plain v other =>
    cases v with
    | array items => exact absurd rfl (other items)
    | float x =>
      rw [hasNaN_float, Bool.not_eq_true]
      exact Double.equals_self_iff
    | _ => exact iff_of_true (by simp [equals]) fun nan => nomatch nan

theorem typeName_eq_of_equals (h : u.equals v = true) : u.typeName = v.typeName := by
  cases u <;> cases v <;> first | rfl | cases h

theorem length_eq_of_equals {as bs : List Value}
    (h : (Value.array as).equals (.array bs) = true) : as.length = bs.length :=
  (array_equals_iff.mp h).length_eq

/-- Equality of values is a partial equivalence, finer than that of types and of lengths of arrays.
Exactly the values with a NaN in them differ from themselves; an array has no identity, so that this
is so for the same array on both sides. -/
theorem equals_partial_equivalence (u v w : Value) :
    (u.equals v = true → v.equals u = true) ∧
    (u.equals v = true → v.equals w = true → u.equals w = true) ∧
    (u.equals v = true → u.typeName = v.typeName ∧
      ∀ as bs, u = .array as → v = .array bs → as.length = bs.length) ∧
    (v.equals v = true ↔ ¬ v.HasNaN) ∧
    (∀ x y, (Value.float x).equals (.float y) = true ↔
      ∃ n, x.number? = some n ∧ y.number? = some n) ∧
    (∀ as bs, (Value.array as).equals (.array bs) = true ↔
      List.Forall₂ (fun a b => a.equals b = true) as bs) ∧
    (∀ f g, (Value.closure f).equals (.closure g) = true ↔ f.identity = g.identity) ∧
    ∀ s t, (Value.suspension s).equals (.suspension t) = true ↔ s.identity = t.identity := by
  refine ⟨equals_symm, equals_trans, fun same => ⟨typeName_eq_of_equals same, ?_⟩, equals_self_iff,
    fun x y => Double.equals_iff, fun as bs => array_equals_iff, ?_, ?_⟩
  · rintro as bs rfl rfl
    exact length_eq_of_equals same
  · exact fun f g => beq_iff_eq
  · exact fun s t => beq_iff_eq

example : (Value.array [.float ⟨0⟩]).equals (.array [.float ⟨0x8000000000000000⟩]) = true ∧
    (Value.array [.array [.float ⟨0x7FF8000000000000⟩]]).equals
      (.array [.array [.float ⟨0x7FF8000000000000⟩]]) = false := by decide

end Value

end Callable
