import Callable.Decimal.Shortest

/-! How a double is written: which decimal exponents are positional, whether a whole number keeps
`.0`, and the form of the exponent otherwise. A layout holds these decisions as data. -/

namespace Callable.Decimal

structure Layout where
  tie : Tie
  positional : Option (Int × Int)
  wholePoint : Bool
  plusSign : Bool

namespace Layout

def plain : Layout := ⟨.up, none, false, false⟩

/-- Always a point or an exponent, with an exponent from `1e16` up and below `1e-4`. -/
def pointed : Layout := ⟨.up, some (-4, 15), true, false⟩

/-- Like `pointed`, but positional down to `1e-5` and with a signed exponent. -/
def signed : Layout := ⟨.even, some (-5, 15), true, true⟩

def positionalText (l : Layout) (digits : List Char) (point : Int) : List Char :=
  let whole := if l.wholePoint then ['.', '0'] else []
  if point ≤ 0 then ['0', '.'] ++ List.replicate (-point).toNat '0' ++ digits
  else if digits.length ≤ point.toNat then
    digits ++ List.replicate (point.toNat - digits.length) '0' ++ whole
  else digits.take point.toNat ++ '.' :: digits.drop point.toNat

def exponentText (l : Layout) (e : Int) : List Char :=
  let sign := if e < 0 then ['-'] else if l.plusSign then ['+'] else []
  'e' :: sign ++ Nat.toDigits 10 e.natAbs

def scientificText (l : Layout) (digits : List Char) (e : Int) : List Char :=
  match digits with
  | [] => []
  | [d] => d :: l.exponentText e
  | d :: rest => d :: '.' :: rest ++ l.exponentText e

def positiveText (l : Layout) (x : Double) : List Char :=
  let d := shortest l.tie x
  let digits := Nat.toDigits 10 d.digits
  let point := d.exponent + digits.length
  let inRange := match l.positional with
    | none => true
    | some (first, last) => first ≤ point - 1 && point - 1 ≤ last
  if inRange then l.positionalText digits point else l.scientificText digits (point - 1)

def text (l : Layout) (x : Double) : String :=
  if x.isNaN then "NaN"
  else
    let sign := if x.isNegative then ['-'] else []
    let body :=
      if x.isInfinite then ['i', 'n', 'f']
      else if x.magnitude = 0 then '0' :: if l.wholePoint then ['.', '0'] else []
      else l.positiveText x
    String.ofList (sign ++ body)

end Layout

end Callable.Decimal
