import Callable.Text.Blank
import Mathlib.Data.List.DropRight

/-! What stands between blanks. Trimming a text leaves the one core that has blanks around it and
neither begins nor ends with one. -/

namespace Callable.Text

section

variable {α : Type} {p : α → Bool} {front rest : List α}

theorem dropWhile_append_of_head (all : ∀ a ∈ front, p a = true)
    (stops : ∀ a, rest.head? = some a → p a = false) : (front ++ rest).dropWhile p = rest := by
  rw [List.dropWhile_append_of_pos all]
  cases rest with
  | nil => rfl
  | cons a rest => rw [List.dropWhile_cons_of_neg (by simp [stops a rfl])]

theorem takeWhile_append_of_head (all : ∀ a ∈ front, p a = true)
    (stops : ∀ a, rest.head? = some a → p a = false) : (front ++ rest).takeWhile p = front := by
  rw [List.takeWhile_append_of_pos all]
  cases rest with
  | nil => simp
  | cons a rest => rw [List.takeWhile_cons_of_neg (by simp [stops a rfl]), List.append_nil]

theorem head?_dropWhile (xs : List α) {a : α} (h : (xs.dropWhile p).head? = some a) :
    p a = false := by
  have stops := List.head?_dropWhile_not p xs
  rwa [h] at stops

end

structure Trims (cs core : List Char) : Prop where
  padded : ∃ before after, cs = before ++ core ++ after ∧ (∀ c ∈ before, isBlank c = true) ∧
    ∀ c ∈ after, isBlank c = true
  first : ∀ c, core.head? = some c → isBlank c = false
  last : ∀ c, core.getLast? = some c → isBlank c = false

variable {cs core : List Char}

theorem trim_eq (cs : List Char) : trim cs = (cs.dropWhile isBlank).rdropWhile isBlank := rfl

theorem trims_trim (cs : List Char) : Trims cs (trim cs) where
  padded := by
    refine ⟨cs.takeWhile isBlank, (cs.dropWhile isBlank).rtakeWhile isBlank, ?_,
      fun c => List.mem_takeWhile_imp, fun c => List.mem_rtakeWhile_imp⟩
    rw [trim_eq, List.append_assoc, List.rdropWhile_append_rtakeWhile,
      List.takeWhile_append_dropWhile]
  first c head := by
    obtain ⟨after, whole⟩ := List.rdropWhile_prefix isBlank (cs.dropWhile isBlank)
    refine head?_dropWhile cs ?_
    rw [← whole, List.head?_append, ← trim_eq, head]
    rfl
  last c tail := by
    have nonempty : trim cs ≠ [] := by
      rintro e
      simp [e] at tail
    have stops := List.rdropWhile_last_not isBlank _ nonempty
    rw [List.getLast?_eq_some_getLast nonempty] at tail
    rw [← Option.some.inj tail]
    exact Bool.eq_false_iff.mpr stops

theorem Trims.eq_trim (h : Trims cs core) : trim cs = core := by
  obtain ⟨⟨before, after, rfl, blank, blank'⟩, first, last⟩ := h
  by_cases empty : core = []
  · subst empty
    have all : (before ++ [] ++ after).dropWhile isBlank = [] := by
      simpa [or_imp, forall_and] using ⟨blank, blank'⟩
    rw [trim_eq, all, List.rdropWhile_nil]
  · have front : (before ++ (core ++ after)).dropWhile isBlank = core ++ after :=
      dropWhile_append_of_head blank fun c head => first c (by
        rwa [List.head?_append_of_ne_nil _ empty] at head)
    have back : (after.reverse ++ core.reverse).dropWhile isBlank = core.reverse :=
      dropWhile_append_of_head (by simpa using blank') (by simpa using last)
    rw [trim, List.append_assoc, front, List.reverse_append, back, List.reverse_reverse]

end Callable.Text
