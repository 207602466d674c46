/-! Double-precision numbers, held as their 64 bits. Equality and rounding are stated on the
bits in exact integer arithmetic: a NaN differs from everything, the two zeros agree, and a
quotient is rounded to the nearest double with ties to the even one. -/

namespace Callable

structure Double where
  bits : UInt64

namespace Double

def signBit : Nat := 0x8000000000000000

def leadingBit : Nat := 0x10000000000000

def magnitude (x : Double) : Nat := x.bits.toNat % signBit

def isNegative (x : Double) : Bool := signBit ≤ x.bits.toNat

/-- The magnitude of the infinities; a larger one belongs to a NaN. -/
def infinite : Nat := 2047 * leadingBit

def isNaN (x : Double) : Bool := infinite < x.magnitude

def isInfinite (x : Double) : Bool := x.magnitude == infinite

def equals (x y : Double) : Bool :=
  !x.isNaN && !y.isNaN && (x.bits == y.bits || (x.magnitude == 0 && y.magnitude == 0))

/-- A finite double is plus or minus `significand * 2 ^ exponent`. -/
def significand (x : Double) : Nat :=
  if x.magnitude < leadingBit then x.magnitude else x.magnitude % leadingBit + leadingBit

def exponent (x : Double) : Int := max 1 (x.magnitude / leadingBit : Nat) - 1075

def signed (negative : Bool) (magnitude : Nat) : Double :=
  ⟨(magnitude + if negative then signBit else 0).toUInt64⟩

def negate (x : Double) : Double := signed (!x.isNegative) x.magnitude

/-- The quotient rounded to an integer, a tie to the even neighbour. -/
def roundedQuotient (num den : Nat) : Nat :=
  let q := num / den
  let r := num % den
  if 2 * r < den then q else if den < 2 * r then q + 1 else q + q % 2

def binaryExponent (num den : Nat) : Int :=
  let e : Int := (num.log2 : Int) - den.log2
  if den * Nat.pow 2 e.toNat ≤ num * Nat.pow 2 (-e).toNat then e else e - 1

/-- The non-negative double nearest to `num / den`, infinite where that is out of range. -/
def nearest (num den : Nat) : Double :=
  if num = 0 then signed false 0
  else
    let unit := max (-1074) (binaryExponent num den - 52)
    let m := roundedQuotient (num * Nat.pow 2 (-unit).toNat) (den * Nat.pow 2 unit.toNat)
    signed false (min infinite ((unit + 1074).toNat * leadingBit + m))

def numerator (x : Double) : Nat := x.significand * Nat.pow 2 x.exponent.toNat

def denominator (x : Double) : Nat := Nat.pow 2 (-x.exponent).toNat

def times (x y : Double) : Double :=
  nearest (x.numerator * y.numerator) (x.denominator * y.denominator)

def dividedBy (x y : Double) : Double :=
  nearest (x.numerator * y.denominator) (x.denominator * y.numerator)

end Double

end Callable
