import Callable.Json.Reader

/-! Texts between double quotes. No control character stands in them as it is, and a character
beyond 16 bits is escaped as a pair of surrogates, neither of which may stand alone. -/

namespace Callable.Json

def hexDigit? (c : Char) : Option Nat :=
  if '0' ≤ c ∧ c ≤ '9' then some (c.toNat - 48)
  else if 'a' ≤ c ∧ c ≤ 'f' then some (c.toNat - 87)
  else if 'A' ≤ c ∧ c ≤ 'F' then some (c.toNat - 55)
  else none

def utf8Length (cs : List Char) : Nat := cs.foldl (fun n c => n + c.utf8Size) 0

/-- A 16-bit unit in four hexadecimal digits. A text of less than four bytes has ended. -/
def readUnit (cs : List Char) : Except Problem (Nat × List Char) :=
  if utf8Length (cs.take 4) < 4 then .error .ended
  else match cs with
    | a :: b :: c :: d :: rest =>
      match hexDigit? a, hexDigit? b, hexDigit? c, hexDigit? d with
      | some a, some b, some c, some d => .ok (((a * 16 + b) * 16 + c) * 16 + d, rest)
      | _, _, _, _ => .error .malformed
    | _ => .error .malformed

def isHighSurrogate (n : Nat) : Bool := 0xD800 ≤ n && n ≤ 0xDBFF

def isLowSurrogate (n : Nat) : Bool := 0xDC00 ≤ n && n ≤ 0xDFFF

def ofSurrogates (high low : Nat) : Char :=
  Char.ofNat (0x10000 + (high - 0xD800) * 0x400 + (low - 0xDC00))

def readLowSurrogate (high : Nat) : List Char → Except Problem (Char × List Char)
  | [] | ['\\'] => .error .ended
  | '\\' :: 'u' :: rest =>
    match readUnit rest with
    | .error p => .error p
    | .ok (low, rest) =>
      if isLowSurrogate low then .ok (ofSurrogates high low, rest) else .error .malformed
  | _ => .error .malformed

def readCodeEscape (cs : List Char) : Except Problem (Char × List Char) :=
  match readUnit cs with
  | .error p => .error p
  | .ok (n, rest) =>
    if isLowSurrogate n then .error .malformed
    else if isHighSurrogate n then readLowSurrogate n rest
    else .ok (Char.ofNat n, rest)

def shortEscape? : Char → Option Char
  | '"' => some '"'
  | '\\' => some '\\'
  | '/' => some '/'
  | 'b' => some '\x08'
  | 'f' => some '\x0c'
  | 'n' => some '\n'
  | 'r' => some '\r'
  | 't' => some '\t'
  | _ => none

def readEscape : List Char → Except Problem (Char × List Char)
  | [] => .error .ended
  | 'u' :: rest => readCodeEscape rest
  | c :: rest =>
    match shortEscape? c with
    | some d => .ok (d, rest)
    | none => .error .malformed

theorem readUnit_length {cs rest : List Char} {n : Nat} (h : readUnit cs = .ok (n, rest)) :
    rest.length < cs.length := by
  unfold readUnit at h
  split at h
  · cases h
  · split at h
    · split at h
      · cases h
        simp only [List.length_cons]
        omega
      · cases h
    · cases h

theorem readLowSurrogate_length {high : Nat} {cs rest : List Char} {c : Char}
    (h : readLowSurrogate high cs = .ok (c, rest)) : rest.length < cs.length := by
  unfold readLowSurrogate at h
  split at h
  · cases h
  · cases h
  · split at h
    · cases h
    · rename_i unit
      split at h
      · simp only [Except.ok.injEq, Prod.mk.injEq] at h
        have := readUnit_length unit
        simp only [List.length_cons, ← h.2]
        omega
      · cases h
  · cases h

theorem readCodeEscape_length {cs rest : List Char} {c : Char}
    (h : readCodeEscape cs = .ok (c, rest)) : rest.length < cs.length := by
  unfold readCodeEscape at h
  split at h
  · cases h
  · rename_i unit
    have shorter := readUnit_length unit
    split at h
    · cases h
    · split at h
      · have := readLowSurrogate_length h
        omega
      · simp only [Except.ok.injEq, Prod.mk.injEq] at h
        exact h.2 ▸ shorter

theorem readEscape_length {cs rest : List Char} {c : Char}
    (h : readEscape cs = .ok (c, rest)) : rest.length < cs.length := by
  unfold readEscape at h
  split at h
  · cases h
  · have := readCodeEscape_length h
    simp only [List.length_cons]
    omega
  · split at h
    · cases h
      simp
    · cases h

def readText (cs : List Char) : Except Problem (List Char × List Char) :=
  match cs with
  | [] => .error .ended
  | '"' :: rest => .ok ([], rest)
  | '\\' :: escape =>
    match h : readEscape escape with
    | .error p => .error p
    | .ok (c, rest) =>
      have := readEscape_length h
      (readText rest).map fun (text, rest) => (c :: text, rest)
  | c :: rest =>
    if c.toNat < 0x20 then .error .malformed
    else (readText rest).map fun (text, rest) => (c :: text, rest)
termination_by cs.length

def Reader.text : Reader String := do
  Reader.skip
  let (text, rest) ← (readText (← get) : Except Problem (List Char × List Char))
  set rest
  return String.ofList text

end Callable.Json
