import Callable.Json.Number
import Callable.Proofs.Json.Reading
import Callable.Proofs.Numeral

/-! Integers among the numbers. A number that is read as a natural number is a numeral of it without
leading zero, below the bound of 64 bits, and nothing follows that would make it another number. -/

namespace Callable.Json

/-- Nothing in front of which the digits of a number would go on as the same number. -/
def Unextended (rest : List Char) : Prop :=
  ∀ c, rest.head? = some c → c.isDigit = false ∧ c ≠ '.' ∧ c ≠ 'e' ∧ c ≠ 'E'

theorem isBlank_of_isDigit {c : Char} (digit : c.isDigit = true) : isBlank c = false := by
  simp only [isBlank, Bool.or_eq_false_iff, beq_eq_false_iff_ne]
  refine ⟨⟨⟨?_, ?_⟩, ?_⟩, ?_⟩ <;> rintro rfl <;> contradiction

theorem solid_of_numeral {cs : List Char} {n : Nat} (numeral : Numeral cs n) : Solid cs := by
  obtain ⟨c, cs, rfl⟩ := List.exists_cons_of_ne_nil numeral.nonempty
  exact ⟨c, cs, rfl, isBlank_of_isDigit (numeral.digits c (List.mem_cons_self ..))⟩

theorem le_foldl_digits (ds : List Nat) (m : Nat) : m ≤ ds.foldl (fun m d => m * 10 + d) m := by
  induction ds generalizing m with
  | nil => exact Nat.le_refl m
  | cons d ds ih => exact Nat.le_trans (by omega) (ih (m * 10 + d))

theorem absorb_eq_iff {m n : Nat} {ds : List Nat} (small : m < UInt64.size) :
    absorb m ds = (n, []) ↔ ds.foldl (fun m d => m * 10 + d) m = n ∧ n < UInt64.size := by
  induction ds generalizing m with
  | nil =>
    simp only [absorb, List.foldl_nil, Prod.mk.injEq, and_true]
    exact ⟨fun same => ⟨same, same ▸ small⟩, And.left⟩
  | cons d ds ih =>
    rw [absorb, List.foldl_cons]
    split
    · next fits => exact ih fits
    · next beyond =>
      have larger := le_foldl_digits ds (m * 10 + d)
      simp only [Prod.mk.injEq, List.cons_ne_nil, and_false, false_iff]
      omega

theorem digitValue_eq_zero {c : Char} (digit : c.isDigit = true) : digitValue c = 0 ↔ c = '0' := by
  have bounds : 48 ≤ c.toNat ∧ c.toNat ≤ 57 := Char.isDigit_iff_toNat.mp digit
  rw [← Char.toNat_inj, digitValue]
  simp only [Char.reduceToNat]
  omega

theorem noLeadingZero_iff {cs : List Char} (digits : ∀ c ∈ cs, c.isDigit = true) :
    NoLeadingZero cs ↔ ∀ d ds, cs.map digitValue ≠ 0 :: d :: ds := by
  match cs with
  | [] => simp [NoLeadingZero]
  | [c] => simp [NoLeadingZero]
  | c :: d :: cs =>
    have first : digitValue c = 0 ↔ c = '0' := digitValue_eq_zero (digits c (List.mem_cons_self ..))
    simp [NoLeadingZero, first]

namespace Reader

variable {text rest : List Char}

theorem someDigits_iff {ds : List Nat} : someDigits text = .ok (ds, rest) ↔
    ∃ cs, cs ≠ [] ∧ (∀ c ∈ cs, c.isDigit = true) ∧ ds = cs.map digitValue ∧ text = cs ++ rest ∧
      ∀ c, rest.head? = some c → c.isDigit = false := by
  constructor
  · intro read
    cases text with
    | nil => cases read
    | cons c text =>
      have step : someDigits (c :: text) =
          (if c.isDigit then digits else throw .malformed : Reader (List Nat)) (c :: text) := rfl
      rw [step] at read
      split at read
      · next digit =>
        cases read
        refine ⟨(c :: text).takeWhile Char.isDigit, ?_, fun _ => List.mem_takeWhile_imp, rfl,
          List.takeWhile_append_dropWhile.symm, fun _ => Text.head?_dropWhile _⟩
        rw [List.takeWhile_cons_of_pos digit]
        exact List.cons_ne_nil _ _
      · cases read
  · rintro ⟨cs, nonempty, all, rfl, rfl, stops⟩
    obtain ⟨c, cs, rfl⟩ := List.exists_cons_of_ne_nil nonempty
    have step : someDigits (c :: cs ++ rest) =
        (if c.isDigit then digits else throw .malformed : Reader (List Nat)) (c :: cs ++ rest) := rfl
    have read : digits (c :: cs ++ rest) = .ok (((c :: cs ++ rest).takeWhile Char.isDigit).map
        digitValue, (c :: cs ++ rest).dropWhile Char.isDigit) := rfl
    rw [step, if_pos (all c (List.mem_cons_self ..)), read,
      Text.takeWhile_append_of_head all stops, Text.dropWhile_append_of_head all stops]

theorem wholeDigits_iff {ds : List Nat} : wholeDigits text = .ok (ds, rest) ↔
    ∃ cs, cs ≠ [] ∧ (∀ c ∈ cs, c.isDigit = true) ∧ NoLeadingZero cs ∧ ds = cs.map digitValue ∧
      text = cs ++ rest ∧ ∀ c, rest.head? = some c → c.isDigit = false := by
  have step : wholeDigits text = .ok (ds, rest) ↔
      someDigits text = .ok (ds, rest) ∧ ∀ d rest, ds ≠ 0 :: d :: rest := by
    rw [wholeDigits, bind_eq_ok]
    constructor
    · rintro ⟨_ | ⟨_ | d, _ | ⟨e, es⟩⟩, middle, read, refused⟩ <;> cases refused <;>
        exact ⟨read, by simp⟩
    · rintro ⟨read, bare⟩
      refine ⟨ds, rest, read, ?_⟩
      rcases ds with _ | ⟨_ | d, _ | ⟨e, es⟩⟩
      · rfl
      · rfl
      · exact absurd rfl (bare e es)
      · rfl
      · rfl
  rw [step, someDigits_iff]
  constructor
  · rintro ⟨⟨cs, nonempty, all, rfl, onward⟩, bare⟩
    exact ⟨cs, nonempty, all, (noLeadingZero_iff all).mpr bare, rfl, onward⟩
  · rintro ⟨cs, nonempty, all, bare, rfl, onward⟩
    exact ⟨⟨cs, nonempty, all, rfl, onward⟩, (noLeadingZero_iff all).mp bare⟩

theorem fractionDigits_none_iff :
    fractionDigits text = .ok (none, rest) ↔ text = rest ∧ rest.head? ≠ some '.' := by
  rw [fractionDigits, get_bind]
  split
  · next after =>
    refine ⟨fun read => ?_, fun h => absurd (h.1 ▸ rfl) h.2⟩
    obtain ⟨_, _, -, read⟩ := bind_eq_ok.mp read
    obtain ⟨_, _, -, read⟩ := bind_eq_ok.mp read
    cases read
  · next plain =>
    constructor
    · intro read
      cases read
      refine ⟨rfl, fun point => ?_⟩
      obtain ⟨after, rfl⟩ := List.head?_eq_some_iff.mp point
      exact plain after rfl
    · rintro ⟨rfl, -⟩
      rfl

theorem exponent_none_iff : exponent text = .ok (none, rest) ↔
    text = rest ∧ rest.head? ≠ some 'e' ∧ rest.head? ≠ some 'E' := by
  have read_some {after middle : List Char} : ¬ (do
      set after
      let negative ← exponentSign
      let n : Nat := (← someDigits).foldl (fun n d => n * 10 + d) 0
      return some (if negative then -n else n) : Reader (Option Int)) middle = .ok (none, rest) := by
    intro read
    obtain ⟨_, _, -, read⟩ := bind_eq_ok.mp read
    obtain ⟨_, _, -, read⟩ := bind_eq_ok.mp read
    obtain ⟨_, _, -, read⟩ := bind_eq_ok.mp read
    cases read
  rw [exponent, get_bind]
  split
  · exact ⟨fun read => absurd read read_some, fun h => absurd (h.1 ▸ rfl) h.2.1⟩
  · exact ⟨fun read => absurd read read_some, fun h => absurd (h.1 ▸ rfl) h.2.2⟩
  · next small large =>
    constructor
    · intro read
      cases read
      refine ⟨rfl, fun mark => ?_, fun mark => ?_⟩
      all_goals obtain ⟨after, rfl⟩ := List.head?_eq_some_iff.mp mark
      · exact small after rfl
      · exact large after rfl
    · rintro ⟨rfl, -⟩
      rfl

def unsigned (negative : Bool) : Reader Number := do
  let whole := absorb 0 (← wholeDigits)
  let fraction ← fractionDigits
  let e ← exponent
  if whole.2.isEmpty && fraction.isNone && e.isNone then return integerOrDouble negative whole.1
  let gathered := absorb whole.1 (fraction.getD [])
  let used := (fraction.getD []).length - gathered.2.length
  match scaled? gathered.1 (e.getD 0 + whole.2.length - used) with
  | none => throw .malformed
  | some x => return .floating (if negative then x.negate else x)

theorem number_of_minus (text : List Char) : number ('-' :: text) = unsigned true text := rfl

theorem number_of_other (h : text.head? ≠ some '-') : number text = unsigned false text := by
  have step : number text = (if (text.head? == some '-') = true then
      skip >>= fun _ => unsigned (text.head? == some '-')
      else unsigned (text.head? == some '-')) text := rfl
  rw [step, beq_eq_false_iff_ne.mpr h]
  rfl

theorem unsigned_integer_iff {negative : Bool} {z : Int} :
    unsigned negative text = .ok (.integer z, rest) ↔
      ∃ cs m, Numeral cs m ∧ NoLeadingZero cs ∧ m < UInt64.size ∧ text = cs ++ rest ∧
        Unextended rest ∧ integerOrDouble negative m = .integer z := by
  unfold unsigned
  simp only [bind_eq_ok, wholeDigits_iff]
  constructor
  · rintro ⟨_, middle, ⟨cs, nonempty, all, bare, rfl, rfl, stops⟩, fraction, middle', point, e,
      middle'', mark, read⟩
    split at read
    · next plain =>
      simp only [Bool.and_eq_true, List.isEmpty_iff, Option.isNone_iff_eq_none] at plain
      obtain ⟨⟨fits, rfl⟩, rfl⟩ := plain
      obtain ⟨rfl, no_point⟩ := fractionDigits_none_iff.mp point
      obtain ⟨rfl, small, large⟩ := exponent_none_iff.mp mark
      obtain ⟨same, rfl⟩ : integerOrDouble negative (absorb 0 (cs.map digitValue)).1 = .integer z ∧
          middle = rest := by
        simpa using pure_eq_ok.mp read
      obtain ⟨value, bound⟩ := (absorb_eq_iff (by decide)).mp (Prod.ext rfl fits)
      refine ⟨cs, _, ⟨nonempty, all, ?_⟩, bare, bound, rfl, fun c next => ⟨stops c next, ?_⟩, same⟩
      · rw [← value, List.foldl_map]
        exact (foldl_digits cs 0).symm
      · refine ⟨?_, ?_, ?_⟩ <;> rintro rfl <;> contradiction
    · generalize scaled? _ _ = product at read
      cases product <;> cases read
  · rintro ⟨cs, m, numeral, bare, small, rfl, ends, same⟩
    have absorbed : absorb 0 (cs.map digitValue) = (m, []) := by
      refine (absorb_eq_iff (by decide)).mpr ⟨?_, small⟩
      rw [List.foldl_map, ← numeral.value]
      exact foldl_digits cs 0
    refine ⟨_, rest, ⟨cs, numeral.nonempty, numeral.digits, bare, rfl, rfl, fun c next =>
      (ends c next).1⟩, none, rest, ?_, none, rest, ?_, ?_⟩
    · exact fractionDigits_none_iff.mpr ⟨rfl, fun next => (ends _ next).2.1 rfl⟩
    · exact exponent_none_iff.mpr ⟨rfl, fun next => (ends _ next).2.2.1 rfl,
        fun next => (ends _ next).2.2.2 rfl⟩
    · rw [absorbed]
      exact pure_eq_ok.mpr ⟨same, rfl⟩

theorem number_natural_iff {n : Nat} : number text = .ok (.integer n, rest) ↔
    ∃ cs, Numeral cs n ∧ NoLeadingZero cs ∧ n < UInt64.size ∧ text = cs ++ rest ∧
      Unextended rest := by
  by_cases minus : text.head? = some '-'
  · obtain ⟨text, rfl⟩ := List.head?_eq_some_iff.mp minus
    rw [number_of_minus, unsigned_integer_iff]
    constructor
    · rintro ⟨cs, m, -, -, -, -, -, same⟩
      simp only [integerOrDouble, if_true] at same
      split at same
      · cases same
      · simp only [Number.integer.injEq] at same
        omega
    · rintro ⟨cs, numeral, -, -, same, -⟩
      obtain ⟨c, cs, rfl⟩ := List.exists_cons_of_ne_nil numeral.nonempty
      cases same
      cases numeral.digits '-' (List.mem_cons_self ..)
  · rw [number_of_other minus, unsigned_integer_iff]
    have unsigned (m : Nat) : integerOrDouble false m = .integer n ↔ m = n := by
      simp only [integerOrDouble, Bool.false_eq_true, if_false, Number.integer.injEq, Int.ofNat_inj]
    simp only [unsigned]
    constructor
    · rintro ⟨cs, m, numeral, bare, small, same, ends, rfl⟩
      exact ⟨cs, numeral, bare, small, same, ends⟩
    · rintro ⟨cs, numeral, bare, small, same, ends⟩
      exact ⟨cs, n, numeral, bare, small, same, ends, rfl⟩

end Reader

end Callable.Json
