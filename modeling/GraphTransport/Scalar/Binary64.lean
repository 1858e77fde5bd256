import GraphTransport.Scalar

namespace GraphTransport.Binary64

/-- The smaller operand; if exactly one operand is a NaN, the other one. -/
@[inline] def minNum (a b : Float) : Float :=
  if a.isNaN then b else if b < a then b else a

@[inline] def maxNum (a b : Float) : Float :=
  if a.isNaN then b else if a < b then b else a

instance : ExpScalar Float where
  zero := 0.0
  one := 1.0
  natCast := Float.ofNat
  min := minNum
  max := maxNum
  abs := Float.abs
  decidableLT := fun a b ↦ inferInstanceAs (Decidable (a < b))
  decidableLE := fun a b ↦ inferInstanceAs (Decidable (a ≤ b))
  exp := Float.exp

end GraphTransport.Binary64
