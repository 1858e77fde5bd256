import GraphTransport.Decimal.Literal

namespace GraphTransport.Decimal

def nearestDouble (negative : Bool) (digits : Nat) (exponent : Int) : Float :=
  let x := Float.ofScientific digits (exponent < 0) exponent.natAbs
  if negative then -x else x

def takeSign : List Char → Bool × List Char
  | '+' :: cs => (false, cs)
  | '-' :: cs => (true, cs)
  | cs => (false, cs)

def readPower : List Char → Option Int
  | [] => some 0
  | c :: cs =>
    if c = 'e' ∨ c = 'E' then
      let (negative, cs) := takeSign cs
      match takeDigits cs with
      | ([], _) => none
      | (ds, []) => some (if negative then -(ofDigits 0 ds : Nat) else (ofDigits 0 ds : Nat))
      | _ => none
    else none

/-- A double: an optional sign, then `inf`, `infinity` or `nan` in any case, or digits with a point
before, between or behind them and with an optional power of ten. -/
def parseDouble (text : String) : Option Float :=
  let (negative, cs) := takeSign text.toList
  let signed (x : Float) : Float := if negative then -x else x
  let word := String.ofList (cs.map Char.toLower)
  if word = "inf" ∨ word = "infinity" then
    some (signed (1.0 / 0.0))
  else if word = "nan" then
    some (signed (0.0 / 0.0))
  else
    let (integer, rest) := takeDigits cs
    let (fraction, rest) :=
      match rest with
      | '.' :: rest => takeDigits rest
      | _ => ([], rest)
    if integer.isEmpty && fraction.isEmpty then none
    else do
      let power ← readPower rest
      return nearestDouble negative (ofDigits (ofDigits 0 integer) fraction)
        (power - fraction.length)

def parseCount (text : String) : Option Nat :=
  let cs :=
    match text.toList with
    | '+' :: cs => cs
    | cs => cs
  match takeDigits cs with
  | ([], _) => none
  | (ds, []) =>
    let n := ofDigits 0 ds
    if n < Nat.pow 2 64 then some n else none
  | _ => none

end GraphTransport.Decimal
