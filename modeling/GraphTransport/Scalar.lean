namespace GraphTransport

/-- The arithmetic of the transport kernels. It has no laws, so one definition of a kernel has a
meaning in machine arithmetic, in an ordered field, and in a field whose operations are rounded. -/
class Scalar (α : Type) extends Zero α, One α, Add α, Sub α, Mul α, Div α, Neg α, NatCast α,
    OfScientific α, Min α, Max α, BEq α, LT α, LE α where
  abs : α → α
  decidableLT : DecidableLT α
  decidableLE : DecidableLE α

instance Scalar.instDecidableLT {α : Type} [Scalar α] : DecidableLT α := Scalar.decidableLT

instance Scalar.instDecidableLE {α : Type} [Scalar α] : DecidableLE α := Scalar.decidableLE

class ExpScalar (α : Type) extends Scalar α where
  exp : α → α

instance (priority := low) instOfNatTwo {α : Type} [Scalar α] : OfNat α 2 := ⟨((2 : Nat) : α)⟩

end GraphTransport
