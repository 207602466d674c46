import Callable.Json.Reader

/-! Numbers. One without fraction and exponent that fits 64 bits is an integer, any other a
double. The digits of a double are gathered into a 64-bit significand as long as they fit, and
the significand is scaled once by a power of ten; a number too large for a double is malformed. -/

namespace Callable.Json

inductive Number where
  | integer (n : Int)
  | floating (x : Double)

def digitValue (c : Char) : Nat := c.toNat - 48

/-- Takes digits into the significand up to the first that would not fit. -/
def absorb : Nat → List Nat → Nat × List Nat
  | m, [] => (m, [])
  | m, d :: ds => if m * 10 + d < UInt64.size then absorb (m * 10 + d) ds else (m, d :: ds)

def powerOfTen (n : Nat) : Double := .nearest (Nat.pow 10 n) 1

def scaleDown (x : Double) (n : Nat) : Double :=
  if n ≤ 308 then x.dividedBy (powerOfTen n)
  else if x.magnitude = 0 then x
  else scaleDown (x.dividedBy (powerOfTen 308)) (n - 308)
termination_by n

def scaled? (m : Nat) (e : Int) : Option Double :=
  let x := Double.nearest m 1
  if e < 0 then some (scaleDown x e.natAbs)
  else if m = 0 then some x
  else if 308 < e then none
  else
    let product := x.times (powerOfTen e.toNat)
    if product.isInfinite then none else some product

namespace Reader

def digits : Reader (List Nat) := modifyGet fun cs =>
  ((cs.takeWhile Char.isDigit).map digitValue, cs.dropWhile Char.isDigit)

def someDigits : Reader (List Nat) := do
  match ← get with
  | [] => throw .ended
  | c :: _ => if c.isDigit then digits else throw .malformed

def wholeDigits : Reader (List Nat) := do
  match ← someDigits with
  | 0 :: _ :: _ => throw .malformed
  | ds => return ds

def fractionDigits : Reader (Option (List Nat)) := do
  match ← get with
  | '.' :: rest =>
    set rest
    return some (← someDigits)
  | _ => return none

def exponentSign : Reader Bool := do
  match ← get with
  | '+' :: rest =>
    set rest
    return false
  | '-' :: rest =>
    set rest
    return true
  | _ => return false

def exponent : Reader (Option Int) := do
  match ← get with
  | 'e' :: rest | 'E' :: rest =>
    set rest
    let negative ← exponentSign
    let n : Nat := (← someDigits).foldl (fun n d => n * 10 + d) 0
    return some (if negative then -n else n)
  | _ => return none

/-- An integer beyond the 64 bits of its sign is a double, and so is negative zero. -/
def integerOrDouble (negative : Bool) (m : Nat) : Number :=
  if negative then
    if m = 0 ∨ Double.signBit < m then .floating (Double.nearest m 1).negate else .integer (-m)
  else .integer m

def number : Reader Number := do
  let negative := (← get).head? == some '-'
  if negative then skip
  let (m, dropped) := absorb 0 (← wholeDigits)
  let fraction ← fractionDigits
  let e ← exponent
  if dropped.isEmpty && fraction.isNone && e.isNone then return integerOrDouble negative m
  let (m, unused) := absorb m (fraction.getD [])
  let used := (fraction.getD []).length - unused.length
  match scaled? m (e.getD 0 + dropped.length - used) with
  | none => throw .malformed
  | some x => return .floating (if negative then x.negate else x)

end Reader

end Callable.Json
