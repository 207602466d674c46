import Callable.Json.Scalar
import Callable.Settings

/-! Settings as a document: an object with the members `trace_calls` and `call_loop_limit`, or
an array of their values in that order. What is missing keeps its default; no member may be
unknown or repeated, and nothing may follow the document. -/

namespace Callable.Settings

open Json

inductive Field where
  | traceCalls
  | loopLimit
  deriving DecidableEq

namespace Field

def key : Field → String
  | .traceCalls => "trace_calls"
  | .loopLimit => "call_loop_limit"

def all : List Field := [.traceCalls, .loopLimit]

def ofKey? (key : String) : Option Field := all.find? (·.key == key)

end Field

def readTraceCalls : Reader Bool := do
  match ← Reader.ahead with
  | 't' => Reader.truth true
  | 'f' => Reader.truth false
  | _ => throw (.wrongType (← Reader.found) "a boolean")

def limitOfNumber : Number → Except Problem UInt64
  | .integer n =>
    if n < 0 then .error (.wrongValue (.integer n) "u64") else .ok n.toNat.toUInt64
  | .floating x => .error (.wrongType (.floating x) "u64")

def readLoopLimit : Reader (Option UInt64) := do
  let c ← Reader.ahead
  if c == 'n' then
    Reader.null
    return none
  else if c == '-' || c.isDigit then
    return some (← limitOfNumber (← Reader.number))
  else throw (.wrongType (← Reader.found) "u64")

def readMember (settings : Settings) : Field → Reader Settings
  | .traceCalls => return { settings with traceCalls := ← readTraceCalls }
  | .loopLimit => return { settings with loopLimit := ← readLoopLimit }

def readKey : Reader Field := do
  match ← Reader.ahead with
  | '"' =>
    let key ← Reader.text
    match Field.ofKey? key with
    | some field => return field
    | none => throw (.unknownField key (Field.all.map (·.key)))
  | _ => throw .malformed

def readColon : Reader Unit := do
  match ← Reader.ahead with
  | ':' => Reader.skip
  | _ => throw .malformed

theorem length_erase_lt {field : Field} {fields : List Field} (h : field ∈ fields) :
    (fields.erase field).length < fields.length := by
  have := List.length_pos_of_mem h
  rw [List.length_erase_of_mem h]
  omega

/-- The members from a key on, of which those still allowed are given. -/
def readMembers (settings : Settings) (allowed : List Field) : Reader Settings := do
  let field ← readKey
  if present : field ∈ allowed then
    have := length_erase_lt present
    readColon
    let settings ← readMember settings field
    match ← Reader.ahead with
    | '\x7d' =>
      Reader.skip
      return settings
    | ',' =>
      Reader.skip
      readMembers settings (allowed.erase field)
    | _ => throw .malformed
  else throw (.duplicateField field.key)
termination_by allowed.length

def readObject : Reader Settings := do
  match ← Reader.ahead with
  | '\x7d' =>
    Reader.skip
    return {}
  | _ => readMembers {} Field.all

def readArray : Reader Settings := do
  if (← Reader.ahead) = ']' then
    Reader.skip
    return {}
  let traceCalls ← readTraceCalls
  match ← Reader.ahead with
  | ']' =>
    Reader.skip
    return { traceCalls }
  | ',' =>
    Reader.skip
    if (← Reader.ahead) = ']' then throw .malformed
    let loopLimit ← readLoopLimit
    if (← Reader.ahead) = ']' then
      Reader.skip
      return { traceCalls, loopLimit }
    else throw .malformed
  | _ => throw .malformed

def readSettings : Reader Settings := do
  match ← Reader.ahead with
  | '\x7b' =>
    Reader.skip
    readObject
  | '[' =>
    Reader.skip
    readArray
  | _ => throw (.wrongType (← Reader.found) "struct RuntimeConfig")

def readDocument : Reader Settings := do
  let settings ← readSettings
  Reader.skipBlanks
  match ← get with
  | [] => return settings
  | _ => throw .malformed

def ofDocument (source : String) : Except Problem Settings :=
  readDocument.run' source.toList

def problemMessage? (p : Problem) : Option String :=
  p.detail?.map ("invalid runtime config: " ++ ·)

end Callable.Settings
