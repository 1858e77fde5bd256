import GraphTransport.Decimal.Binary

namespace GraphTransport.Decimal

inductive Tie where
  | up
  | even
deriving DecidableEq, Repr

structure Scaled where
  digits : Nat
  exponent : Int
deriving DecidableEq, Repr

/-- The interval of numbers that round to a positive double, as fractions over one denominator. -/
structure Interval where
  low : Nat
  mid : Nat
  high : Nat
  den : Nat
  closed : Bool
deriving DecidableEq, Repr

def Interval.around (m : Nat) (q : Int) : Interval :=
  let below := if m = Nat.pow 2 52 ∧ minExponent < q then 1 else 2
  let scale := Nat.pow 2 (q - 2).toNat
  { low := (4 * m - below) * scale
    mid := 4 * m * scale
    high := (4 * m + 2) * scale
    den := Nat.pow 2 (2 - q).toNat
    closed := m % 2 = 0 }

def Interval.shift (i : Interval) (e : Int) : Interval :=
  let up := Nat.pow 10 (-e).toNat
  { i with
    low := i.low * up, mid := i.mid * up, high := i.high * up
    den := i.den * Nat.pow 10 e.toNat }

def Interval.contains (i : Interval) (c : Nat) : Bool :=
  let c := c * i.den
  if i.closed then i.low ≤ c && c ≤ i.high else i.low < c && c < i.high

/-- The neighbour of the middle on the grid of integers that lies in the interval, the nearer one if
both do. If any integer lies in the interval then so does one of these two. -/
def Interval.nearest? (tie : Tie) (i : Interval) : Option Nat :=
  let c := i.mid / i.den
  let rest := 2 * (i.mid % i.den)
  match i.contains c, i.contains (c + 1) with
  | false, false => none
  | true, false => some c
  | false, true => some (c + 1)
  | true, true =>
    if rest < i.den then some c
    else if i.den < rest then some (c + 1)
    else match tie with
      | .up => some (c + 1)
      | .even => some (if c % 2 = 0 then c else c + 1)

def digitCount (n : Nat) : Nat := (toString n).length

def leadingExponent (num den : Nat) : Int :=
  if den ≤ num then digitCount (num / den) - 1
  else
    let k := digitCount (den / num)
    if den ≤ num * Nat.pow 10 (k - 1) then 1 - k else -k

def Scaled.normalize : Nat → Scaled → Scaled
  | 0, s => s
  | fuel + 1, s =>
    if s.digits ≠ 0 ∧ s.digits % 10 = 0 then normalize fuel ⟨s.digits / 10, s.exponent + 1⟩ else s

/-- The first decimal in the interval, on grids of more and more digits, up to seventeen; `e` is
the leading exponent of the middle. Seventeen digits tell all doubles apart, so a grid is found. -/
def searchGrids (tie : Tie) (i : Interval) (e : Int) : Nat → Scaled
  | 0 => ⟨(i.shift (e - 16)).mid / (i.shift (e - 16)).den, e - 16⟩
  | more + 1 =>
    let p := e - (16 - more : Nat)
    match (i.shift p).nearest? tie with
    | some c => Scaled.normalize 20 ⟨c, p⟩
    | none => searchGrids tie i e more

def shortest (tie : Tie) (m : Nat) (q : Int) : Scaled :=
  if m = 0 then ⟨0, 0⟩
  else
    let i := Interval.around m q
    searchGrids tie i (leadingExponent i.mid i.den) 17

end GraphTransport.Decimal
