import GraphTransport.Decimal.Literal

namespace GraphTransport.Decimal

def maxSignificand : Nat := Nat.pow 2 64 - 1

def maxPower : Nat := Nat.pow 2 31 - 1

def collectDigits : Nat → List Digit → Nat × List Digit
  | n, [] => (n, [])
  | n, d :: ds => if 10 * n + d.val ≤ maxSignificand then collectDigits (10 * n + d.val) ds
    else (n, d :: ds)

def powerOfTen (k : Nat) : Float := Float.ofScientific 1 false k

/-- Scales a double by a power of ten; a result that is infinite is refused. Below the smallest
power that doubles can hold the scaling takes several steps. -/
def scale : Nat → Float → Int → Option Float
  | 0, _, _ => none
  | fuel + 1, x, e =>
    if e.natAbs ≤ 308 then
      if 0 ≤ e then
        let y := x * powerOfTen e.natAbs
        if y.isInf then none else some y
      else
        some (x / powerOfTen e.natAbs)
    else if x == 0.0 then some x
    else if 0 ≤ e then none
    else scale fuel (x / powerOfTen 308) (e + 308)

def leading (l : Literal) : Nat × Int :=
  let (integer, dropped) := collectDigits 0 (lastDigits (toString l.integer).length l.integer)
  let (significand, left) := collectDigits integer l.fraction
  (significand, dropped.length - (l.fraction.length - left.length : Nat))

/-- The double that a literal stands for, unless it is too large. Up to fifteen digits and a small
power this is the nearest double; beyond, each step of the scaling rounds. -/
def readScaled (l : Literal) : Option Float := do
  let (significand, power) := leading l
  let x := Float.ofNat significand
  let e := l.exponent.getD 0
  let y ←
    if maxPower < e.natAbs then
      if significand ≠ 0 ∧ 0 < e then none else some 0.0
    else
      scale 4 x (power + e)
  return if l.negative then -y else y

end GraphTransport.Decimal
