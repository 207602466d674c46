import Mathlib.Data.String.Defs

/-! Decimal numerals: ASCII digits and the number that they stand for. The digits of a number are
such a numeral, without leading zero, and any number of zeros may stand in front of them. -/

namespace Callable

/-- At least one ASCII digit; together they stand for the number. -/
structure Numeral (cs : List Char) (n : Nat) : Prop where
  nonempty : cs ≠ []
  digits : ∀ c ∈ cs, c.isDigit = true
  value : Nat.ofDigitChars 10 cs 0 = n

def NoLeadingZero (cs : List Char) : Prop := cs.head? = some '0' → cs = ['0']

theorem foldl_digits (cs : List Char) (m : Nat) :
    cs.foldl (fun m c => m * 10 + (c.toNat - 48)) m = Nat.ofDigitChars 10 cs m := by
  simp only [Nat.ofDigitChars_eq_foldl, Nat.mul_comm]
  rfl

namespace Numeral

variable {cs : List Char} {n : Nat}

theorem toDigits (n : Nat) : Numeral (Nat.toDigits 10 n) n where
  nonempty := Nat.toDigits_ne_nil
  digits _ := Nat.isDigit_of_mem_toDigits (by decide) (by decide)
  value := Nat.ofDigitChars_ten_toDigits

theorem zeros (k : Nat) (h : Numeral cs n) : Numeral (List.replicate k '0' ++ cs) n where
  nonempty := by simp [h.nonempty]
  digits c mem := by
    rcases List.mem_append.mp mem with zero | mem
    · rw [List.eq_of_mem_replicate zero]
      rfl
    · exact h.digits c mem
  value := by
    rw [Nat.ofDigitChars_append, Nat.ofDigitChars_replicate_zero, Nat.mul_zero, h.value]

end Numeral

theorem noLeadingZero_toDigits (n : Nat) : NoLeadingZero (Nat.toDigits 10 n) := by
  induction n using Nat.strongRecOn with
  | ind n ih =>
    intro leading
    by_cases small : n < 10
    · rw [Nat.toDigits_of_lt_base small] at *
      simp_all
    · rw [Nat.toDigits_eq_if (by decide), if_neg small, List.head?_append,
        Option.or_of_isSome (List.isSome_head?.mpr Nat.toDigits_ne_nil)] at leading
      have single := ih (n / 10) (by omega) leading
      have zero : n / 10 = 0 := by
        rw [← Nat.ofDigitChars_ten_toDigits (n := n / 10), single]
        rfl
      omega

end Callable
