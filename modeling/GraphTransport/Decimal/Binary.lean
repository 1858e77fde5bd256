namespace GraphTransport.Decimal

inductive Binary where
  | nan
  | infinite (negative : Bool)
  | finite (negative : Bool) (m : Nat) (q : Int)
deriving DecidableEq, Repr

def minExponent : Int := -1074

/-- The meaning of a word of 64 bits: a sign, eleven bits of exponent and 52 bits of
significand, to which a leading one is added unless the exponent is zero. -/
def Binary.ofBits (bits : UInt64) : Binary :=
  let word := bits.toNat
  let negative := Nat.pow 2 63 ≤ word
  let e : Nat := word / Nat.pow 2 52 % Nat.pow 2 11
  let f : Nat := word % Nat.pow 2 52
  if e = Nat.pow 2 11 - 1 then
    if f = 0 then .infinite negative else .nan
  else if e = 0 then
    .finite negative f minExponent
  else
    .finite negative (Nat.pow 2 52 + f) (minExponent + (e - 1 : Nat))

def Binary.ofFloat (x : Float) : Binary := ofBits x.toBits

end GraphTransport.Decimal
