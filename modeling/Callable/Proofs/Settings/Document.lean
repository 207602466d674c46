import Callable.Proofs.Json.Number
import Callable.Proofs.Json.Text
import Callable.Settings.Document

/-! Settings from a document. Which documents there are is said here by their tokens: the members of an
object in any order, or the elements of an array in the order of the fields, each of which assigns a
value to a field. The reader accepts just these, with blanks anywhere between the tokens. -/

namespace Callable.Settings

open Json

inductive Assignment where
  | traceCalls (on : Bool)
  | loopLimit (limit : Option UInt64)

namespace Assignment

def field : Assignment → Field
  | .traceCalls _ => .traceCalls
  | .loopLimit _ => .loopLimit

def assign (settings : Settings) : Assignment → Settings
  | .traceCalls on => { settings with traceCalls := on }
  | .loopLimit limit => { settings with loopLimit := limit }

end Assignment

def assigned (as : List Assignment) : Settings := as.foldl Assignment.assign {}

inductive Denotes : Assignment → List Char → Prop where
  | on : Denotes (.traceCalls true) ['t', 'r', 'u', 'e']
  | off : Denotes (.traceCalls false) ['f', 'a', 'l', 's', 'e']
  | unlimited : Denotes (.loopLimit none) ['n', 'u', 'l', 'l']
  | limited {digits} {limit : UInt64} (numeral : Numeral digits limit.toNat)
      (bare : NoLeadingZero digits) : Denotes (.loopLimit (some limit)) digits

inductive Member (a : Assignment) : List (List Char) → Prop where
  | pair {key value} (quotes : Quotes a.field.key key) (denotes : Denotes a value) :
    Member a [key, [':'], value]

inductive Element (a : Assignment) : List (List Char) → Prop where
  | value {value} (denotes : Denotes a value) : Element a [value]

/-- Items with commas between them. -/
inductive Listed (item : Assignment → List (List Char) → Prop) :
    List Assignment → List (List Char) → Prop where
  | nil : Listed item [] []
  | single {a tokens} (only : item a tokens) : Listed item [a] tokens
  | cons {a b as tokens tokens'} (first : item a tokens) (others : Listed item (b :: as) tokens') :
    Listed item (a :: b :: as) (tokens ++ [','] :: tokens')

/-- The tokens of a document, and the settings that it comes to. No key of an object is repeated; an
array begins with the first field, and what is missing is missing at its end. -/
inductive Document : Settings → List (List Char) → Prop where
  | object {as tokens} (members : Listed Member as tokens)
      (distinct : (as.map Assignment.field).Nodup) :
    Document (assigned as) (['\x7b'] :: tokens ++ [['\x7d']])
  | array {as tokens} (elements : Listed Element as tokens)
      (in_order : as.map Assignment.field <+: Field.all) :
    Document (assigned as) (['['] :: tokens ++ [[']']])

section

variable {text rest : List Char}

theorem Denotes.solid {a : Assignment} {value : List Char} (h : Denotes a value) : Solid value := by
  cases h with
  | on | off | unlimited => exact ⟨_, _, rfl, rfl⟩
  | limited numeral => exact solid_of_numeral numeral

theorem Denotes.core {a : Assignment} {value : List Char} (h : Denotes a value)
    (lexes : Lexes [value] text rest) :
    ∃ c after, text.dropWhile isBlank = c :: after ∧ c ≠ ']' := by
  rw [(lexes_singleton h.solid).mp lexes]
  cases h with
  | on | off | unlimited => exact ⟨_, _, rfl, by decide⟩
  | limited numeral =>
    obtain ⟨c, digits, rfl⟩ := List.exists_cons_of_ne_nil numeral.nonempty
    refine ⟨c, _, rfl, ?_⟩
    rintro rfl
    cases numeral.digits _ (List.mem_cons_self ..)

theorem unextended_of_lexes {c : Char} {tokens : List (List Char)} (closing : c ∈ [',', '\x7d', ']'])
    (h : Lexes ([c] :: tokens) text rest) : Unextended text := by
  have plain (d : Char) (h : isBlank d = true ∨ d ∈ [',', '\x7d', ']']) :
      d.isDigit = false ∧ d ≠ '.' ∧ d ≠ 'e' ∧ d ≠ 'E' := by
    simp only [isBlank, Bool.or_eq_true, beq_iff_eq, List.mem_cons, List.not_mem_nil] at h
    rcases h with (((rfl | rfl) | rfl) | rfl) | rfl | rfl | rfl | h <;> first | decide | cases h
  obtain _ | ⟨blank, -⟩ := h
  rename_i before _
  intro d head
  cases before with
  | nil =>
    cases head
    exact plain _ (.inr closing)
  | cons b before =>
    cases head
    exact plain _ (.inl (blank _ (List.mem_cons_self ..)))

theorem truth_iff {b b' : Bool} : Reader.truth b text = .ok (b', rest) ↔
    b' = b ∧ text = (Text.truth b).toList ++ rest := by
  unfold Reader.truth
  rw [Reader.bind_eq_ok]
  constructor
  · rintro ⟨⟨⟩, middle, read, done⟩
    cases done
    exact ⟨rfl, Reader.word_iff.mp read⟩
  · rintro ⟨rfl, same⟩
    exact ⟨(), rest, Reader.word_iff.mpr same, rfl⟩

theorem readTraceCalls_iff {on : Bool} : readTraceCalls text = .ok (on, rest) ↔
    ∃ value, Denotes (.traceCalls on) value ∧ Lexes [value] text rest := by
  unfold readTraceCalls
  rw [Reader.ahead_bind]
  constructor
  · intro read
    split at read
    · cases read
    · next c after core =>
      split at read
      · obtain ⟨rfl, same⟩ := truth_iff.mp read
        exact ⟨_, .on, (lexes_singleton (Denotes.solid .on)).mpr (core.trans same)⟩
      · obtain ⟨rfl, same⟩ := truth_iff.mp read
        exact ⟨_, .off, (lexes_singleton (Denotes.solid .off)).mpr (core.trans same)⟩
      · obtain ⟨_, _, -, read⟩ := Reader.bind_eq_ok.mp read
        cases read
  · rintro ⟨value, denotes, lexes⟩
    rw [(lexes_singleton denotes.solid).mp lexes]
    cases denotes with
    | on => exact truth_iff.mpr ⟨rfl, rfl⟩
    | off => exact truth_iff.mpr ⟨rfl, rfl⟩

theorem limitOfNumber_iff {number : Number} {limit : UInt64} :
    limitOfNumber number = .ok limit ↔ ∃ n : Nat, number = .integer n ∧ n.toUInt64 = limit := by
  constructor
  · intro read
    unfold limitOfNumber at read
    split at read
    · next n =>
      split at read
      · cases read
      · next natural =>
        cases read
        exact ⟨n.toNat, by rw [Int.toNat_of_nonneg (by omega)], rfl⟩
    · cases read
  · rintro ⟨n, rfl, rfl⟩
    have natural : ¬ (n : Int) < 0 := by omega
    simp [limitOfNumber, natural]

theorem readLoopLimit_sound {limit : Option UInt64}
    (read : readLoopLimit text = .ok (limit, rest)) :
    ∃ value, Denotes (.loopLimit limit) value ∧ Lexes [value] text rest := by
  unfold readLoopLimit at read
  rw [Reader.ahead_bind] at read
  split at read
  · cases read
  · next c after core =>
    split at read
    · obtain ⟨⟨⟩, middle, null, done⟩ := Reader.bind_eq_ok.mp read
      cases done
      have same := core.trans (Reader.word_iff.mp null)
      exact ⟨_, .unlimited, (lexes_singleton (Denotes.solid .unlimited)).mpr same⟩
    · split at read
      · obtain ⟨number, middle, first, read⟩ := Reader.bind_eq_ok.mp read
        obtain ⟨limit, _, lifted, done⟩ := Reader.bind_eq_ok.mp read
        cases done
        obtain ⟨fits, rfl⟩ := Reader.lift_eq_ok.mp lifted
        obtain ⟨n, rfl, rfl⟩ := limitOfNumber_iff.mp fits
        obtain ⟨digits, numeral, bare, small, same, -⟩ := Reader.number_natural_iff.mp first
        have value : n.toUInt64.toNat = n := UInt64.toNat_ofNat_of_lt' small
        refine ⟨digits, .limited (value.symm ▸ numeral) bare, ?_⟩
        exact (lexes_singleton (solid_of_numeral numeral)).mpr (core.trans same)
      · obtain ⟨_, _, -, read⟩ := Reader.bind_eq_ok.mp read
        cases read

theorem readLoopLimit_complete {limit : Option UInt64} {value : List Char}
    (denotes : Denotes (.loopLimit limit) value) (lexes : Lexes [value] text rest)
    (ends : Unextended rest) : readLoopLimit text = .ok (limit, rest) := by
  unfold readLoopLimit
  rw [Reader.ahead_bind, (lexes_singleton denotes.solid).mp lexes]
  cases denotes with
  | unlimited => exact Reader.bind_eq_ok.mpr ⟨(), rest, Reader.word_iff.mpr rfl, rfl⟩
  | @limited _ limit numeral bare =>
    obtain ⟨c, digits, rfl⟩ := List.exists_cons_of_ne_nil numeral.nonempty
    have digit := numeral.digits c (List.mem_cons_self ..)
    have other : c ≠ 'n' := by
      rintro rfl
      cases digit
    have read := Reader.number_natural_iff.mpr ⟨_, numeral, bare, limit.toNat_lt, rfl, ends⟩
    have fits : limitOfNumber (.integer limit.toNat) = .ok limit :=
      limitOfNumber_iff.mpr ⟨_, rfl, UInt64.ofNat_toNat⟩
    simp only [List.cons_append, beq_iff_eq, other, if_false, digit, Bool.or_true, if_true]
    exact Reader.bind_eq_ok.mpr ⟨_, _, read, Reader.bind_eq_ok.mpr
      ⟨_, _, Reader.lift_eq_ok.mpr ⟨fits, rfl⟩, rfl⟩⟩

theorem readMember_sound {settings settings' : Settings} {field : Field}
    (read : readMember settings field text = .ok (settings', rest)) :
    ∃ a value, a.field = field ∧ a.assign settings = settings' ∧ Denotes a value ∧
      Lexes [value] text rest := by
  cases field with
  | traceCalls =>
    obtain ⟨on, middle, read, done⟩ := Reader.bind_eq_ok.mp read
    cases done
    obtain ⟨value, denotes, lexes⟩ := readTraceCalls_iff.mp read
    exact ⟨.traceCalls on, value, rfl, rfl, denotes, lexes⟩
  | loopLimit =>
    obtain ⟨limit, middle, read, done⟩ := Reader.bind_eq_ok.mp read
    cases done
    obtain ⟨value, denotes, lexes⟩ := readLoopLimit_sound read
    exact ⟨.loopLimit limit, value, rfl, rfl, denotes, lexes⟩

theorem readMember_complete {settings : Settings} {a : Assignment} {value : List Char}
    (denotes : Denotes a value) (lexes : Lexes [value] text rest) (ends : Unextended rest) :
    readMember settings a.field text = .ok (a.assign settings, rest) := by
  cases a with
  | traceCalls on =>
    exact Reader.bind_eq_ok.mpr ⟨on, rest, readTraceCalls_iff.mpr ⟨value, denotes, lexes⟩, rfl⟩
  | loopLimit limit =>
    exact Reader.bind_eq_ok.mpr ⟨limit, rest, readLoopLimit_complete denotes lexes ends, rfl⟩

theorem ofKey?_iff {key : String} {field : Field} :
    Field.ofKey? key = some field ↔ field.key = key := by
  constructor
  · intro found
    simpa using List.find?_some found
  · rintro rfl
    cases field <;> rfl

theorem readKey_iff {field : Field} : readKey text = .ok (field, rest) ↔
    ∃ key, Quotes field.key key ∧ Lexes [key] text rest := by
  unfold readKey
  rw [Reader.ahead_bind]
  constructor
  · intro read
    split at read
    · cases read
    · next c after core =>
      split at read
      · obtain ⟨key, middle, quoted, read⟩ := Reader.bind_eq_ok.mp read
        cases known : Field.ofKey? key with
        | none =>
          rw [known] at read
          cases read
        | some field =>
          rw [known] at read
          cases read
          obtain ⟨token, quotes, same⟩ := Reader.text_iff.mp quoted
          refine ⟨token, (ofKey?_iff.mp known).symm ▸ quotes, ?_⟩
          exact (lexes_singleton quotes.solid).mpr (core.trans same)
      · cases read
  · rintro ⟨token, quotes, lexes⟩
    have core := (lexes_singleton quotes.solid).mp lexes
    obtain ⟨body, spells, rfl⟩ := quotes
    rw [core]
    have quoted : Reader.text ('"' :: (body ++ ['"']) ++ rest) = .ok (field.key, rest) :=
      Reader.text_iff.mpr ⟨_, ⟨body, spells, rfl⟩, rfl⟩
    have known := ofKey?_iff.mpr (Eq.refl field.key)
    refine Reader.bind_eq_ok.mpr ⟨_, rest, quoted, ?_⟩
    rw [known]
    rfl

theorem readColon_iff : readColon text = .ok ((), rest) ↔ Lexes [[':']] text rest := by
  rw [lexes_singleton ⟨_, _, rfl, rfl⟩, readColon, Reader.ahead_bind]
  constructor
  · intro read
    split at read
    · cases read
    · next c after core =>
      split at read
      · cases read
        exact core
      · cases read
  · intro core
    rw [core]
    rfl

theorem lexes_punctuation {c : Char} (visible : isBlank c = false) :
    Lexes [[c]] text rest ↔ text.dropWhile isBlank = c :: rest :=
  lexes_singleton ⟨c, [], rfl, visible⟩

def readOthers (settings : Settings) (allowed : List Field) : Reader Settings := do
  match ← Reader.ahead with
  | '\x7d' =>
    Reader.skip
    return settings
  | ',' =>
    Reader.skip
    readMembers settings allowed
  | _ => throw .malformed

theorem readOthers_iff {settings settings' : Settings} {allowed : List Field} :
    readOthers settings allowed text = .ok (settings', rest) ↔
      (settings = settings' ∧ Lexes [['\x7d']] text rest) ∨
      ∃ after, Lexes [[',']] text after ∧
        readMembers settings allowed after = .ok (settings', rest) := by
  rw [readOthers, Reader.ahead_bind]
  constructor
  · intro read
    split at read
    · cases read
    · next c after core =>
      split at read
      · cases read
        exact .inl ⟨rfl, (lexes_punctuation rfl).mpr core⟩
      · obtain ⟨⟨⟩, _, skipped, read⟩ := Reader.bind_eq_ok.mp read
        cases skipped
        exact .inr ⟨_, (lexes_punctuation rfl).mpr core, read⟩
      · cases read
  · rintro (⟨rfl, closing⟩ | ⟨after, comma, read⟩)
    · rw [(lexes_punctuation rfl).mp closing]
      rfl
    · rw [(lexes_punctuation rfl).mp comma]
      exact read

theorem unextended_of_readOthers {settings settings' : Settings} {allowed : List Field}
    (read : readOthers settings allowed text = .ok (settings', rest)) : Unextended text := by
  rcases readOthers_iff.mp read with ⟨-, closing⟩ | ⟨_, comma, -⟩
  · exact unextended_of_lexes (by simp) closing
  · exact unextended_of_lexes (by simp) comma

theorem readMembers_step {settings settings' : Settings} {allowed : List Field} :
    readMembers settings allowed text = .ok (settings', rest) ↔
      ∃ a tokens middle, a.field ∈ allowed ∧ Member a tokens ∧ Lexes tokens text middle ∧
        readOthers (a.assign settings) (allowed.erase a.field) middle = .ok (settings', rest) := by
  rw [readMembers, Reader.bind_eq_ok]
  constructor
  · rintro ⟨field, middle, key, read⟩
    split at read
    · next present =>
      obtain ⟨⟨⟩, middle₁, colon, read⟩ := Reader.bind_eq_ok.mp read
      obtain ⟨settings₁, middle₂, member, others⟩ := Reader.bind_eq_ok.mp read
      obtain ⟨key, quotes, lexes⟩ := readKey_iff.mp key
      obtain ⟨a, value, rfl, rfl, denotes, lexes_value⟩ := readMember_sound member
      exact ⟨a, _, middle₂, present, .pair quotes denotes,
        lexes.append ((readColon_iff.mp colon).append lexes_value), others⟩
    · cases read
  · rintro ⟨a, _, middle, present, @⟨key, value, quotes, denotes⟩, lexes, others⟩
    have lexes : Lexes ([key] ++ ([[':']] ++ [value])) text middle := lexes
    obtain ⟨middle₁, first, lexes⟩ := lexes_append.mp lexes
    obtain ⟨middle₂, second, third⟩ := lexes_append.mp lexes
    refine ⟨a.field, middle₁, readKey_iff.mpr ⟨key, quotes, first⟩, ?_⟩
    rw [dif_pos present]
    have member : readMember settings a.field middle₂ = .ok (a.assign settings, middle) :=
      readMember_complete denotes third (unextended_of_readOthers others)
    exact Reader.bind_eq_ok.mpr ⟨(), middle₂, readColon_iff.mpr second,
      Reader.bind_eq_ok.mpr ⟨_, middle, member, others⟩⟩

theorem readMembers_sound {settings settings' : Settings} {allowed : List Field}
    (nodup : allowed.Nodup) (read : readMembers settings allowed text = .ok (settings', rest)) :
    ∃ a as tokens, Listed Member (a :: as) tokens ∧ ((a :: as).map Assignment.field).Nodup ∧
      (∀ b ∈ a :: as, b.field ∈ allowed) ∧
      (a :: as).foldl Assignment.assign settings = settings' ∧
      Lexes (tokens ++ [['\x7d']]) text rest := by
  -- each member uses up one of the fields that are allowed
  induction size : allowed.length using Nat.strongRecOn generalizing settings allowed text with
  | ind n ih =>
    obtain ⟨a, tokens, middle, present, member, front, others⟩ := readMembers_step.mp read
    rcases readOthers_iff.mp others with ⟨rfl, closing⟩ | ⟨after, comma, read⟩
    · exact ⟨a, [], tokens, .single member, by simp, by simpa using present, rfl,
        front.append closing⟩
    · obtain ⟨b, as, tokens', members, distinct, known, rfl, back⟩ :=
        ih _ (size ▸ length_erase_lt present) (nodup.erase _) read rfl
      simp only [nodup.mem_erase_iff] at known
      refine ⟨a, b :: as, _, .cons member members, ?_, ?_, rfl, ?_⟩
      · rw [List.map_cons, List.nodup_cons]
        refine ⟨fun again => ?_, distinct⟩
        obtain ⟨c, mem, same⟩ := List.mem_map.mp again
        exact (known c mem).1 same
      · exact List.forall_mem_cons.mpr ⟨present, fun c mem => (known c mem).2⟩
      · rw [List.append_assoc]
        exact front.append (comma.append back)

theorem readMembers_complete {settings : Settings} {allowed : List Field} {a : Assignment}
    {as : List Assignment} {tokens : List (List Char)} (members : Listed Member (a :: as) tokens)
    (distinct : ((a :: as).map Assignment.field).Nodup) (known : ∀ b ∈ a :: as, b.field ∈ allowed)
    (lexes : Lexes (tokens ++ [['\x7d']]) text rest) :
    readMembers settings allowed text = .ok ((a :: as).foldl Assignment.assign settings, rest) := by
  induction as generalizing settings allowed a tokens text with
  | nil =>
    obtain _ | only | _ := members
    obtain ⟨middle, front, closing⟩ := lexes_append.mp lexes
    exact readMembers_step.mpr ⟨a, tokens, middle, known a (List.mem_cons_self ..), only, front,
      readOthers_iff.mpr (.inl ⟨rfl, closing⟩)⟩
  | cons b as ih =>
    obtain _ | _ | ⟨first, others⟩ := members
    rename_i tokens tokens'
    have lexes : Lexes (tokens ++ ([[',']] ++ (tokens' ++ [['\x7d']]))) text rest := by
      simpa using lexes
    obtain ⟨middle, front, lexes⟩ := lexes_append.mp lexes
    obtain ⟨middle', comma, back⟩ := lexes_append.mp lexes
    rw [List.map_cons, List.nodup_cons] at distinct
    have known' (c) (mem : c ∈ b :: as) : c.field ∈ allowed.erase a.field := by
      have other : c.field ≠ a.field := fun same =>
        distinct.1 (same ▸ List.mem_map_of_mem mem)
      exact (List.mem_erase_of_ne other).mpr (known c (List.mem_cons_of_mem _ mem))
    exact readMembers_step.mpr ⟨a, tokens, middle, known a (List.mem_cons_self ..), first, front,
      readOthers_iff.mpr (.inr ⟨middle', comma, ih others distinct.2 known' back⟩)⟩

theorem Listed.begins {item : Assignment → List (List Char) → Prop} {a : Assignment}
    {as : List Assignment} {tokens : List (List Char)} (h : Listed item (a :: as) tokens) :
    ∃ first others, item a first ∧ tokens = first ++ others := by
  cases h with
  | single only => exact ⟨_, [], only, by simp⟩
  | cons first => exact ⟨_, _, first, rfl⟩

theorem Field.mem_all (field : Field) : field ∈ Field.all := by cases field <;> decide

theorem readObject_iff {settings : Settings} : readObject text = .ok (settings, rest) ↔
    ∃ as tokens, Listed Member as tokens ∧ (as.map Assignment.field).Nodup ∧
      assigned as = settings ∧ Lexes (tokens ++ [['\x7d']]) text rest := by
  have begins {a as tokens} (members : Listed Member (a :: as) tokens) :
      ∃ key others, Quotes a.field.key key ∧ tokens ++ [['\x7d']] = key :: others := by
    obtain ⟨_, others, ⟨quotes, denotes⟩, rfl⟩ := members.begins
    exact ⟨_, _, quotes, rfl⟩
  rw [readObject, Reader.ahead_bind]
  constructor
  · intro read
    split at read
    · cases read
    · next c after core =>
      split at read
      · cases read
        exact ⟨[], [], .nil, .nil, rfl, (lexes_punctuation rfl).mpr core⟩
      · obtain ⟨a, as, tokens, members, distinct, -, same, lexes⟩ :=
          readMembers_sound (by decide) read
        obtain ⟨key, others, quotes, first⟩ := begins members
        refine ⟨a :: as, tokens, members, distinct, same, ?_⟩
        rw [first] at lexes ⊢
        exact (lexes_core quotes.solid core).mp lexes
  · rintro ⟨as, tokens, members, distinct, rfl, lexes⟩
    cases as with
    | nil =>
      obtain _ | _ | _ := members
      rw [(lexes_punctuation rfl).mp lexes]
      rfl
    | cons a as =>
      obtain ⟨key, others, quotes, first⟩ := begins members
      have core := first ▸ lexes
      rw [lexes_cons quotes.solid] at core
      obtain ⟨middle, core, -⟩ := core
      have whole : readMembers {} Field.all (text.dropWhile isBlank) =
          .ok (assigned (a :: as), rest) := by
        refine readMembers_complete members distinct (fun b _ => b.field.mem_all) ?_
        rw [first] at lexes ⊢
        exact (lexes_core quotes.solid rfl).mpr lexes
      obtain ⟨body, -, rfl⟩ := quotes
      rw [core] at whole ⊢
      exact whole

theorem in_order_iff {as : List Assignment} : as.map Assignment.field <+: Field.all ↔
    as = [] ∨ (∃ on, as = [.traceCalls on]) ∨ ∃ on limit, as = [.traceCalls on, .loopLimit limit] := by
  constructor
  · intro h
    match as, h with
    | [], _ => exact .inl rfl
    | [.traceCalls on], _ => exact .inr (.inl ⟨on, rfl⟩)
    | [.traceCalls on, .loopLimit limit], _ => exact .inr (.inr ⟨on, limit, rfl⟩)
    | .loopLimit _ :: _, h | .traceCalls _ :: .traceCalls _ :: _, h =>
      simp [Field.all, Assignment.field] at h
    | .traceCalls _ :: .loopLimit _ :: _ :: _, h =>
      simp [Field.all, Assignment.field] at h
  · rintro (rfl | ⟨on, rfl⟩ | ⟨on, limit, rfl⟩) <;> simp [Field.all, Assignment.field]

def readSecond (traceCalls : Bool) : Reader Settings := do
  if (← Reader.ahead) = ']' then throw .malformed
  let loopLimit ← readLoopLimit
  if (← Reader.ahead) = ']' then
    Reader.skip
    return { traceCalls, loopLimit }
  else throw .malformed

theorem readSecond_iff {on : Bool} {settings : Settings} :
    readSecond on text = .ok (settings, rest) ↔ ∃ limit value,
      Denotes (.loopLimit limit) value ∧ ⟨on, limit⟩ = settings ∧
        Lexes ([value] ++ [[']']]) text rest := by
  rw [readSecond, Reader.ahead_bind]
  constructor
  · intro read
    split at read
    · cases read
    · next c after core =>
      split at read
      · cases read
      · obtain ⟨limit, middle, second, read⟩ := Reader.bind_eq_ok.mp read
        obtain ⟨value, denotes, front⟩ := readLoopLimit_sound second
        rw [Reader.ahead_bind] at read
        split at read
        · cases read
        · next c after closing =>
          split at read
          · next closes =>
            cases closes
            cases read
            exact ⟨limit, value, denotes, rfl, ((lexes_core denotes.solid core).mp front).append
              ((lexes_punctuation rfl).mpr closing)⟩
          · cases read
  · rintro ⟨limit, value, denotes, rfl, lexes⟩
    obtain ⟨middle, front, closing⟩ := lexes_append.mp lexes
    obtain ⟨c, after, core, other⟩ := denotes.core front
    have second := readLoopLimit_complete denotes ((lexes_core denotes.solid core).mpr front)
      (unextended_of_lexes (by simp) closing)
    rw [core]
    dsimp only
    rw [if_neg other, Reader.bind_of_ok second, Reader.ahead_bind,
      (lexes_punctuation rfl).mp closing]
    rfl

def readAfterFirst (traceCalls : Bool) : Reader Settings := do
  match ← Reader.ahead with
  | ']' =>
    Reader.skip
    return { traceCalls }
  | ',' =>
    Reader.skip
    readSecond traceCalls
  | _ => throw .malformed

theorem readAfterFirst_iff {on : Bool} {settings : Settings} :
    readAfterFirst on text = .ok (settings, rest) ↔
      ((⟨on, none⟩ : Settings) = settings ∧ Lexes [[']']] text rest) ∨
      ∃ limit value, Denotes (.loopLimit limit) value ∧ ⟨on, limit⟩ = settings ∧
        Lexes [[','], value, [']']] text rest := by
  rw [readAfterFirst, Reader.ahead_bind]
  constructor
  · intro read
    split at read
    · cases read
    · next c after core =>
      split at read
      · cases read
        exact .inl ⟨rfl, (lexes_punctuation rfl).mpr core⟩
      · obtain ⟨⟨⟩, _, skipped, read⟩ := Reader.bind_eq_ok.mp read
        cases skipped
        obtain ⟨limit, value, denotes, same, back⟩ := readSecond_iff.mp read
        exact .inr ⟨limit, value, denotes, same, ((lexes_punctuation rfl).mpr core).append back⟩
      · cases read
  · rintro (⟨rfl, closing⟩ | ⟨limit, value, denotes, rfl, lexes⟩)
    · rw [(lexes_punctuation rfl).mp closing]
      rfl
    · have lexes : Lexes ([[',']] ++ ([value] ++ [[']']])) text rest := lexes
      obtain ⟨middle, comma, back⟩ := lexes_append.mp lexes
      rw [(lexes_punctuation rfl).mp comma]
      exact readSecond_iff.mpr ⟨limit, value, denotes, rfl, back⟩

theorem readArray_step {settings : Settings} : readArray text = .ok (settings, rest) ↔
    (({} : Settings) = settings ∧ Lexes [[']']] text rest) ∨
    ∃ on value middle, Denotes (.traceCalls on) value ∧ Lexes [value] text middle ∧
      readAfterFirst on middle = .ok (settings, rest) := by
  rw [readArray, Reader.ahead_bind]
  constructor
  · intro read
    split at read
    · cases read
    · next c after core =>
      split at read
      · next closes =>
        cases closes
        cases read
        exact .inl ⟨rfl, (lexes_punctuation rfl).mpr core⟩
      · obtain ⟨on, middle, first, back⟩ := Reader.bind_eq_ok.mp read
        obtain ⟨value, denotes, front⟩ := readTraceCalls_iff.mp first
        exact .inr ⟨on, value, middle, denotes, (lexes_core denotes.solid core).mp front, back⟩
  · rintro (⟨rfl, closing⟩ | ⟨on, value, middle, denotes, front, back⟩)
    · rw [(lexes_punctuation rfl).mp closing]
      rfl
    · obtain ⟨c, after, core, other⟩ := denotes.core front
      have first := readTraceCalls_iff.mpr ⟨value, denotes, (lexes_core denotes.solid core).mpr front⟩
      rw [core]
      dsimp only
      rw [if_neg other]
      exact Reader.bind_eq_ok.mpr ⟨on, middle, first, back⟩

theorem readArray_iff {settings : Settings} : readArray text = .ok (settings, rest) ↔
    ∃ as tokens, Listed Element as tokens ∧ as.map Assignment.field <+: Field.all ∧
      assigned as = settings ∧ Lexes (tokens ++ [[']']]) text rest := by
  simp only [in_order_iff]
  rw [readArray_step]
  constructor
  · rintro (⟨rfl, closing⟩ | ⟨on, value, middle, denotes, front, back⟩)
    · exact ⟨[], [], .nil, .inl rfl, rfl, closing⟩
    · rcases readAfterFirst_iff.mp back with ⟨rfl, closing⟩ | ⟨limit, value', denotes', rfl, next⟩
      · exact ⟨[.traceCalls on], [value], .single (.value denotes), .inr (.inl ⟨on, rfl⟩), rfl,
          front.append closing⟩
      · exact ⟨[.traceCalls on, .loopLimit limit], [value] ++ [','] :: [value'],
          .cons (.value denotes) (.single (.value denotes')), .inr (.inr ⟨on, limit, rfl⟩), rfl,
          front.append next⟩
  · rintro ⟨as, tokens, elements, rfl | ⟨on, rfl⟩ | ⟨on, limit, rfl⟩, rfl, lexes⟩
    · obtain _ | _ | _ := elements
      exact .inl ⟨rfl, lexes⟩
    · obtain _ | ⟨⟨denotes⟩⟩ | _ := elements
      obtain ⟨middle, front, closing⟩ := lexes_append.mp lexes
      exact .inr ⟨on, _, middle, denotes, front, readAfterFirst_iff.mpr (.inl ⟨rfl, closing⟩)⟩
    · obtain _ | _ | ⟨⟨denotes⟩, _ | ⟨⟨denotes'⟩⟩ | _⟩ := elements
      rename_i value value'
      have lexes : Lexes ([value] ++ [[','], value', [']']]) text rest := lexes
      obtain ⟨middle, front, back⟩ := lexes_append.mp lexes
      exact .inr ⟨on, value, middle, denotes, front,
        readAfterFirst_iff.mpr (.inr ⟨limit, value', denotes', rfl, back⟩)⟩

theorem readSettings_iff {settings : Settings} : readSettings text = .ok (settings, rest) ↔
    ∃ tokens, Document settings tokens ∧ Lexes tokens text rest := by
  have braced {tokens : List (List Char)} : Lexes (['\x7b'] :: tokens) text rest ↔
      ∃ after, text.dropWhile isBlank = '\x7b' :: after ∧ Lexes tokens after rest :=
    lexes_cons ⟨_, _, rfl, rfl⟩
  have bracketed {tokens : List (List Char)} : Lexes (['['] :: tokens) text rest ↔
      ∃ after, text.dropWhile isBlank = '[' :: after ∧ Lexes tokens after rest :=
    lexes_cons ⟨_, _, rfl, rfl⟩
  rw [readSettings, Reader.ahead_bind]
  constructor
  · intro read
    split at read
    · cases read
    · next c after core =>
      split at read
      · obtain ⟨as, tokens, members, distinct, rfl, lexes⟩ := readObject_iff.mp read
        exact ⟨_, .object members distinct, braced.mpr ⟨after, core, lexes⟩⟩
      · obtain ⟨as, tokens, elements, in_order, rfl, lexes⟩ := readArray_iff.mp read
        exact ⟨_, .array elements in_order, bracketed.mpr ⟨after, core, lexes⟩⟩
      · obtain ⟨_, _, -, read⟩ := Reader.bind_eq_ok.mp read
        cases read
  · rintro ⟨_, ⟨members, distinct⟩ | ⟨elements, in_order⟩, lexes⟩
    · obtain ⟨after, core, lexes⟩ := braced.mp lexes
      rw [core]
      exact readObject_iff.mpr ⟨_, _, members, distinct, rfl, lexes⟩
    · obtain ⟨after, core, lexes⟩ := bracketed.mp lexes
      rw [core]
      exact readArray_iff.mpr ⟨_, _, elements, in_order, rfl, lexes⟩

theorem readDocument_iff {settings : Settings} : readDocument text = .ok (settings, rest) ↔
    ∃ middle, readSettings text = .ok (settings, middle) ∧ middle.dropWhile isBlank = [] ∧
      rest = [] := by
  have skipped (middle : List Char) :
      Reader.skipBlanks middle = .ok ((), middle.dropWhile isBlank) := rfl
  rw [readDocument]
  constructor
  · intro read
    obtain ⟨settings, middle, first, read⟩ := Reader.bind_eq_ok.mp read
    rw [Reader.bind_of_ok (skipped middle), Reader.get_bind] at read
    cases blank : middle.dropWhile isBlank with
    | nil =>
      rw [blank] at read
      cases read
      exact ⟨middle, first, blank, rfl⟩
    | cons c after =>
      rw [blank] at read
      cases read
  · rintro ⟨middle, first, blank, rfl⟩
    rw [Reader.bind_of_ok first, Reader.bind_of_ok (skipped middle), Reader.get_bind, blank]
    rfl

theorem ofDocument_iff {source : String} {settings : Settings} : ofDocument source = .ok settings ↔
    ∃ tokens, Document settings tokens ∧ Spaced tokens source.toList := by
  have run : ofDocument source = .ok settings ↔
      ∃ rest, readDocument source.toList = .ok (settings, rest) := by
    unfold ofDocument StateT.run'
    cases readDocument source.toList with
    | error p => simp [Functor.map, Except.map]
    | ok result => simp [Functor.map, Except.map, Prod.ext_iff]
  simp only [run, readDocument_iff, readSettings_iff, List.dropWhile_eq_nil_iff]
  constructor
  · rintro ⟨_, rest, ⟨tokens, document, lexes⟩, blank, rfl⟩
    exact ⟨tokens, document, rest, lexes, blank⟩
  · rintro ⟨tokens, document, rest, lexes, blank⟩
    exact ⟨[], rest, ⟨tokens, document, lexes⟩, blank, rfl⟩

end

def assignment (settings : Settings) : Field → Assignment
  | .traceCalls => .traceCalls settings.traceCalls
  | .loopLimit => .loopLimit settings.loopLimit

variable (settings : Settings)

@[simp] theorem field_assignment (field : Field) : (settings.assignment field).field = field := by
  cases field <;> rfl

theorem assigned_of_perm {fields : List Field} (all : fields.Perm Field.all) :
    assigned (fields.map settings.assignment) = settings := by
  have distinct : fields.Nodup := all.nodup_iff.mpr (by decide)
  match fields, all.length_eq with
  | [.traceCalls, .loopLimit], _ | [.loopLimit, .traceCalls], _ => rfl
  | [.traceCalls, .traceCalls], _ | [.loopLimit, .loopLimit], _ => simp at distinct

theorem exists_denotes (a : Assignment) : ∃ value, Denotes a value := by
  match a with
  | .traceCalls true => exact ⟨_, .on⟩
  | .traceCalls false => exact ⟨_, .off⟩
  | .loopLimit none => exact ⟨_, .unlimited⟩
  | .loopLimit (some limit) =>
    exact ⟨_, .limited (.toDigits limit.toNat) (noLeadingZero_toDigits limit.toNat)⟩

theorem exists_member (a : Assignment) : ∃ tokens, Member a tokens := by
  obtain ⟨value, denotes⟩ := exists_denotes a
  have plain : ∀ field : Field, ∀ c ∈ field.key.toList, 0x20 ≤ c.toNat ∧ c ≠ '"' ∧ c ≠ '\\' := by
    rintro (_ | _) <;> simp [Field.key]
  exact ⟨_, .pair ⟨_, spells_self (plain a.field), rfl⟩ denotes⟩

theorem exists_listed {item : Assignment → List (List Char) → Prop}
    (exists_item : ∀ a, ∃ tokens, item a tokens) (as : List Assignment) :
    ∃ tokens, Listed item as tokens := by
  induction as with
  | nil => exact ⟨[], .nil⟩
  | cons a as ih =>
    obtain ⟨first, item⟩ := exists_item a
    obtain ⟨others, listed⟩ := ih
    cases as with
    | nil => exact ⟨first, .single item⟩
    | cons b as => exact ⟨_, .cons item listed⟩

/-- A document comes to settings exactly if it is made of tokens that come to them, with blanks at will;
and any other document is refused. All settings have documents, with the members in either order. -/
theorem ofDocument_exact :
    (∀ source settings, ofDocument source = .ok settings ↔
      ∃ tokens, Document settings tokens ∧ Spaced tokens source.toList) ∧
    (∀ source, (∃ problem, ofDocument source = .error problem) ↔
      ¬ ∃ settings tokens, Document settings tokens ∧ Spaced tokens source.toList) ∧
    ∀ (settings : Settings) (fields : List Field), fields.Perm Field.all → ∃ tokens source,
      Listed Member (fields.map settings.assignment) tokens ∧
      Spaced (['\x7b'] :: tokens ++ [['\x7d']]) source.toList ∧ ofDocument source = .ok settings := by
  refine ⟨fun _ _ => ofDocument_iff, fun source => ?_, fun settings fields all => ?_⟩
  · simp only [← ofDocument_iff]
    cases ofDocument source with
    | error problem => simp
    | ok settings => simp
  · obtain ⟨tokens, members⟩ := exists_listed exists_member (fields.map settings.assignment)
    have distinct : ((fields.map settings.assignment).map Assignment.field).Nodup := by
      simpa [Function.comp_def] using all.nodup_iff.mpr (by decide)
    have document := Document.object members distinct
    rw [assigned_of_perm settings all] at document
    have spaced : Spaced (['\x7b'] :: tokens ++ [['\x7d']])
        (String.ofList (['\x7b'] :: tokens ++ [['\x7d']]).flatten).toList := by
      rw [String.toList_ofList]
      exact spaced_flatten _
    exact ⟨tokens, _, members, spaced, ofDocument_iff.mpr ⟨_, document, spaced⟩⟩

end Callable.Settings
