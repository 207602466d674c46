import Callable.Json.Text
import Callable.Proofs.Json.Reading

/-! Texts in quotes. How a text may be spelled is said here without a reader: a character stands for
itself, or an escape stands for it. -/

namespace Callable.Json

def HexDigit (c : Char) (n : Nat) : Prop := n < 16 ∧ (c = n.digitChar ∨ c = n.digitChar.toUpper)

instance (c : Char) (n : Nat) : Decidable (HexDigit c n) := inferInstanceAs (Decidable (_ ∧ _))

/-- Four hexadecimal digits and the 16-bit unit that they stand for. -/
inductive CodeUnit : List Char → Nat → Prop where
  | digits {a b c d i j k l} (first : HexDigit a i) (second : HexDigit b j) (third : HexDigit c k)
      (fourth : HexDigit d l) : CodeUnit [a, b, c, d] (((i * 16 + j) * 16 + k) * 16 + l)

def shortEscapes : List (Char × Char) :=
  [('"', '"'), ('\\', '\\'), ('/', '/'), ('b', '\x08'), ('f', '\x0c'), ('n', '\n'), ('r', '\r'),
    ('t', '\t')]

/-- What follows a backslash, in place of a character. -/
inductive Escapes : Char → List Char → Prop where
  | short {letter c} (listed : (letter, c) ∈ shortEscapes) : Escapes c [letter]
  | single {ds n} (unit : CodeUnit ds n) (whole : n < 0xD800 ∨ 0xDFFF < n) :
    Escapes (.ofNat n) ('u' :: ds)
  | pair {ds ds' high low} (first : CodeUnit ds high) (isHigh : 0xD800 ≤ high ∧ high ≤ 0xDBFF)
      (second : CodeUnit ds' low) (isLow : 0xDC00 ≤ low ∧ low ≤ 0xDFFF) :
    Escapes (.ofNat (0x10000 + (high - 0xD800) * 0x400 + (low - 0xDC00)))
      ('u' :: ds ++ '\\' :: 'u' :: ds')

/-- How a text may stand between quotes. -/
inductive Spells : List Char → List Char → Prop where
  | nil : Spells [] []
  | plain {c cs body} (printable : 0x20 ≤ c.toNat) (no_quote : c ≠ '"') (no_backslash : c ≠ '\\')
      (rest : Spells cs body) : Spells (c :: cs) (c :: body)
  | escaped {c escape cs body} (first : Escapes c escape) (rest : Spells cs body) :
    Spells (c :: cs) ('\\' :: escape ++ body)

def Quotes (text : String) (token : List Char) : Prop :=
  ∃ body, Spells text.toList body ∧ token = '"' :: (body ++ ['"'])

theorem Quotes.solid {text : String} {token : List Char} (h : Quotes text token) : Solid token := by
  obtain ⟨body, -, rfl⟩ := h
  exact ⟨_, _, rfl, rfl⟩

section

variable {c : Char} {cs rest : List Char} {n : Nat}

theorem toNat_le_of_hexDigit? (read : hexDigit? c = some n) : c.toNat ≤ 'f'.toNat := by
  unfold hexDigit? at read
  split at read
  · next within => exact Nat.le_trans within.2 (by decide)
  · split at read
    · next within => exact within.2
    · split at read
      · next within => exact Nat.le_trans within.2 (by decide)
      · cases read

theorem hexDigit?_iff : hexDigit? c = some n ↔ HexDigit c n := by
  constructor
  · intro read
    have table : ∀ k ≤ 'f'.toNat, ∀ m ∈ hexDigit? (.ofNat k), HexDigit (.ofNat k) m := by decide
    have known := table c.toNat (toNat_le_of_hexDigit? read) n
    rw [Char.ofNat_toNat] at known
    exact known read
  · rintro ⟨small, rfl | rfl⟩
    · revert n
      decide
    · revert n
      decide

theorem shortEscape?_iff {d : Char} : shortEscape? c = some d ↔ (c, d) ∈ shortEscapes := by
  constructor
  · intro read
    unfold shortEscape? at read
    split at read <;> first | cases read; decide | cases read
  · intro listed
    have table : ∀ e ∈ shortEscapes, shortEscape? e.1 = some e.2 := by decide
    exact table _ listed

theorem readUnit_iff : readUnit cs = .ok (n, rest) ↔ ∃ ds, CodeUnit ds n ∧ cs = ds ++ rest := by
  constructor
  · intro read
    unfold readUnit at read
    split at read
    · cases read
    · split at read
      · split at read
        · next first second third fourth =>
          cases read
          exact ⟨_, .digits (hexDigit?_iff.mp first) (hexDigit?_iff.mp second)
            (hexDigit?_iff.mp third) (hexDigit?_iff.mp fourth), rfl⟩
        · cases read
      · cases read
  · rintro ⟨_, ⟨first, second, third, fourth⟩, rfl⟩
    rw [← hexDigit?_iff] at first second third fourth
    rename_i a b c d _ _ _ _
    have wide : ¬ utf8Length [a, b, c, d] < 4 := by
      have := a.utf8Size_pos
      have := b.utf8Size_pos
      have := c.utf8Size_pos
      have := d.utf8Size_pos
      simp only [utf8Length, List.foldl_cons, List.foldl_nil]
      omega
    simp [readUnit, wide, first, second, third, fourth]

theorem readLowSurrogate_iff {high : Nat} : readLowSurrogate high cs = .ok (c, rest) ↔
    ∃ ds low, CodeUnit ds low ∧ (0xDC00 ≤ low ∧ low ≤ 0xDFFF) ∧ c = ofSurrogates high low ∧
      cs = '\\' :: 'u' :: ds ++ rest := by
  constructor
  · intro read
    unfold readLowSurrogate at read
    split at read
    · cases read
    · cases read
    · split at read
      · cases read
      · next low after first =>
        obtain ⟨ds, unit, rfl⟩ := readUnit_iff.mp first
        split at read
        · next isLow =>
          simp only [Except.ok.injEq, Prod.mk.injEq] at read
          have bounds : 0xDC00 ≤ low ∧ low ≤ 0xDFFF := by simpa [isLowSurrogate] using isLow
          exact ⟨ds, low, unit, bounds, read.1.symm, by simp [read.2]⟩
        · cases read
    · cases read
  · rintro ⟨ds, low, unit, isLow, same, rfl⟩
    have read := readUnit_iff.mpr ⟨ds, unit, Eq.refl (ds ++ rest)⟩
    have isLow : isLowSurrogate low = true := by simpa [isLowSurrogate] using isLow
    simp [readLowSurrogate, read, isLow, same]

theorem readCodeEscape_iff : readCodeEscape cs = .ok (c, rest) ↔
    ∃ escape, Escapes c ('u' :: escape) ∧ cs = escape ++ rest := by
  constructor
  · intro read
    unfold readCodeEscape at read
    split at read
    · cases read
    · next n middle first =>
      obtain ⟨ds, unit, rfl⟩ := readUnit_iff.mp first
      split at read
      · cases read
      · next notLow =>
        split at read
        · next isHigh =>
          obtain ⟨ds', low, second, isLow, same, rfl⟩ := readLowSurrogate_iff.mp read
          have isHigh : 0xD800 ≤ n ∧ n ≤ 0xDBFF := by simpa [isHighSurrogate] using isHigh
          rw [same]
          exact ⟨_, .pair unit isHigh second isLow, by simp⟩
        · next notHigh =>
          simp only [Except.ok.injEq, Prod.mk.injEq] at read
          rw [← read.1, ← read.2]
          refine ⟨ds, .single unit ?_, rfl⟩
          simp [isLowSurrogate] at notLow
          simp [isHighSurrogate] at notHigh
          omega
  · rintro ⟨escape, escapes, rfl⟩
    cases escapes with
    | short listed => simp [shortEscapes] at listed
    | @single _ n unit whole =>
      have read := readUnit_iff.mpr ⟨escape, unit, Eq.refl (escape ++ rest)⟩
      have notLow : isLowSurrogate n = false := by
        simp [isLowSurrogate]
        omega
      have notHigh : isHighSurrogate n = false := by
        simp [isHighSurrogate]
        omega
      simp [readCodeEscape, read, notLow, notHigh]
    | @pair ds ds' high low first isHigh second isLow =>
      have read := readUnit_iff.mpr ⟨ds, first, Eq.refl (ds ++ '\\' :: 'u' :: (ds' ++ rest))⟩
      have onward := readLowSurrogate_iff.mpr ⟨ds', low, second, isLow, Eq.refl (ofSurrogates high low),
        Eq.refl ('\\' :: 'u' :: ds' ++ rest)⟩
      have notLow : isLowSurrogate high = false := by
        simp [isLowSurrogate]
        omega
      have isHigh : isHighSurrogate high = true := by simpa [isHighSurrogate] using isHigh
      simp only [List.cons_append] at onward
      simp [readCodeEscape, read, notLow, isHigh, onward, ofSurrogates]

theorem readEscape_iff : readEscape cs = .ok (c, rest) ↔
    ∃ escape, Escapes c escape ∧ cs = escape ++ rest := by
  constructor
  · intro read
    unfold readEscape at read
    split at read
    · cases read
    · obtain ⟨escape, escapes, rfl⟩ := readCodeEscape_iff.mp read
      exact ⟨_, escapes, rfl⟩
    · split at read
      · next short =>
        cases read
        exact ⟨_, .short (shortEscape?_iff.mp short), rfl⟩
      · cases read
  · rintro ⟨escape, escapes, rfl⟩
    cases escapes with
    | @short letter _ listed =>
      have read := shortEscape?_iff.mpr listed
      unfold readEscape
      split
      · next same => cases same
      · next same =>
        cases same
        simp [shortEscapes] at listed
      · next same =>
        cases same
        simp [read]
    | single unit whole => exact readCodeEscape_iff.mpr ⟨_, .single unit whole, rfl⟩
    | pair first isHigh second isLow =>
      exact readCodeEscape_iff.mpr ⟨_, .pair first isHigh second isLow, rfl⟩

theorem map_cons_iff {x : Except Problem (List Char × List Char)} {text : List Char} :
    x.map (fun (text, rest) => (c :: text, rest)) = .ok (text, rest) ↔
      ∃ others, text = c :: others ∧ x = .ok (others, rest) := by
  cases x with
  | error p => simp [Except.map]
  | ok read =>
    obtain ⟨others, middle⟩ := read
    simp only [Except.map, Except.ok.injEq, Prod.mk.injEq]
    constructor
    · rintro ⟨rfl, rfl⟩
      exact ⟨others, rfl, rfl, rfl⟩
    · rintro ⟨_, rfl, rfl, rfl⟩
      exact ⟨rfl, rfl⟩

theorem readText_iff {text : List Char} : readText cs = .ok (text, rest) ↔
    ∃ body, Spells text body ∧ cs = body ++ '"' :: rest := by
  constructor
  · intro read
    fun_induction readText cs generalizing text with
    | case1 => cases read
    | case2 rest =>
      cases read
      exact ⟨[], .nil, rfl⟩
    | case3 => cases read
    | case4 escape c middle first _ ih =>
      obtain ⟨others, rfl, onward⟩ := map_cons_iff.mp read
      obtain ⟨escape, escapes, rfl⟩ := readEscape_iff.mp first
      obtain ⟨body, spells, rfl⟩ := ih onward
      exact ⟨_, .escaped escapes spells, by simp⟩
    | case5 => cases read
    | case6 c middle no_quote no_backslash printable ih =>
      obtain ⟨others, rfl, onward⟩ := map_cons_iff.mp read
      obtain ⟨body, spells, rfl⟩ := ih onward
      exact ⟨_, .plain (Nat.not_lt.mp printable) no_quote no_backslash spells, rfl⟩
  · rintro ⟨body, spells, rfl⟩
    induction spells with
    | nil => simp [readText]
    | plain printable no_quote no_backslash _ ih =>
      rw [List.cons_append, readText]
      · rw [if_neg (Nat.not_lt.mpr printable)]
        exact map_cons_iff.mpr ⟨_, rfl, ih⟩
      · exact no_quote
      · exact no_backslash
    | @escaped _ escape cs body first _ ih =>
      have read := readEscape_iff.mpr ⟨escape, first, Eq.refl (escape ++ (body ++ '"' :: rest))⟩
      rw [List.append_assoc, List.cons_append, readText]
      split
      · next other => cases other.symm.trans read
      · next other =>
        cases other.symm.trans read
        exact map_cons_iff.mpr ⟨_, rfl, ih⟩

theorem Reader.text_iff {text : String} : Reader.text ('"' :: cs) = .ok (text, rest) ↔
    ∃ token, Quotes text token ∧ '"' :: cs = token ++ rest := by
  have step : Reader.text ('"' :: cs) = .ok (text, rest) ↔
      readText cs = .ok (text.toList, rest) := by
    have skipped : Reader.text ('"' :: cs) = (do
        let (read, rest) ← (readText cs : Except Problem (List Char × List Char))
        set rest
        return String.ofList read : Reader String) cs := rfl
    rw [skipped]
    cases readText cs with
    | error p => exact ⟨nofun, nofun⟩
    | ok result =>
      have done : (do
          let (read, rest) ← (Except.ok result : Except Problem (List Char × List Char))
          set rest
          return String.ofList read : Reader String) cs =
            .ok (String.ofList result.1, result.2) := rfl
      rw [done]
      simp only [Except.ok.injEq, Prod.ext_iff, ← String.toList_inj, String.toList_ofList]
  rw [step, readText_iff]
  constructor
  · rintro ⟨body, spells, rfl⟩
    exact ⟨_, ⟨body, spells, rfl⟩, by simp⟩
  · rintro ⟨_, ⟨body, spells, rfl⟩, same⟩
    exact ⟨body, spells, by simpa using same⟩

theorem spells_self (plain : ∀ c ∈ cs, 0x20 ≤ c.toNat ∧ c ≠ '"' ∧ c ≠ '\\') : Spells cs cs := by
  induction cs with
  | nil => exact .nil
  | cons c cs ih =>
    obtain ⟨⟨printable, no_quote, no_backslash⟩, others⟩ := List.forall_mem_cons.mp plain
    exact .plain printable no_quote no_backslash (ih others)

end

end Callable.Json
