import Callable.Double

/-! The shortest decimal of a double: the fewest digits that read back as the same double, and
of those the value nearest to it. The reals that round to a double form an interval, which holds
its ends exactly when the significand is even. On each decimal grid only the two neighbours of
the value are tried, in exact integer arithmetic. -/

namespace Callable

structure Decimal where
  digits : Nat
  exponent : Int

namespace Decimal

inductive Tie where
  | up
  | even
  deriving DecidableEq

def digitCount (n : Nat) : Nat := (Nat.toDigits 10 n).length

def decimalExponent (num den : Nat) : Int :=
  if den ≤ num then digitCount (num / den) else 1 - digitCount ((den - 1) / num)

/-- A positive value and the reals that round to it, all over one denominator. -/
structure Interval where
  low : Nat
  value : Nat
  high : Nat
  den : Nat
  closed : Bool

namespace Interval

/-- The reals that round to a positive finite double. The gap below a power of two is half as
wide as the gap above it, except at the smallest exponent. -/
def ofDouble (x : Double) : Interval :=
  let m := x.significand
  let narrow := m == Double.leadingBit && 2 * Double.leadingBit ≤ x.magnitude
  let scale := Nat.pow 2 x.exponent.toNat
  { low := (4 * m - if narrow then 1 else 2) * scale
    value := 4 * m * scale
    high := (4 * m + 2) * scale
    den := 4 * Nat.pow 2 (-x.exponent).toNat
    closed := m % 2 == 0 }

def inUnits (i : Interval) (e : Int) : Interval :=
  let up := Nat.pow 10 (-e).toNat
  { i with low := i.low * up, value := i.value * up, high := i.high * up,
           den := i.den * Nat.pow 10 e.toNat }

def contains (i : Interval) (n : Nat) : Bool :=
  if i.closed then i.low ≤ n * i.den && n * i.den ≤ i.high
  else i.low < n * i.den && n * i.den < i.high

def nearestInteger? (i : Interval) (tie : Tie) : Option Nat :=
  let below := i.value / i.den
  let above := below + 1
  match i.contains below && below != 0, i.contains above with
  | false, false => none
  | true, false => some below
  | false, true => some above
  | true, true =>
    let rest := 2 * (i.value % i.den)
    if rest < i.den then some below
    else if i.den < rest then some above
    else match tie with
      | .up => some above
      | .even => some (below + below % 2)

end Interval

def stripZeros : Nat → Decimal → Decimal
  | 0, d => d
  | fuel + 1, d =>
    if d.digits ≠ 0 ∧ d.digits % 10 = 0 then stripZeros fuel ⟨d.digits / 10, d.exponent + 1⟩
    else d

def firstGrid (i : Interval) (tie : Tie) (top : Int) : List Nat → Decimal
  | [] => ⟨0, 0⟩
  | count :: rest =>
    let e := top - count
    match (i.inUnits e).nearestInteger? tie with
    | some n => stripZeros 20 ⟨n, e⟩
    | none => firstGrid i tie top rest

/-- The shortest decimal of a positive finite double; seventeen digits always suffice. -/
def shortest (tie : Tie) (x : Double) : Decimal :=
  firstGrid (.ofDouble x) tie (decimalExponent x.numerator x.denominator) (List.range' 1 17)

end Decimal

end Callable
