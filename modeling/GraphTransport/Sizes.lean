import GraphTransport.Violation

namespace GraphTransport

structure SizeArithmetic where
  mul : Nat → Nat → Except Violation Nat
  canHold : Nat → Bool

namespace SizeArithmetic

def exact : SizeArithmetic where
  mul m n := .ok (m * n)
  canHold _ := true

/-- Lengths are 64-bit words, and a product past their range is noticed. No array takes more than
half of the address space, and a scalar takes eight bytes. -/
def word64 : SizeArithmetic where
  mul m n := if m * n < Nat.pow 2 64 then .ok (m * n) else .error .productOverflow
  canHold n := 8 * n < Nat.pow 2 63

/-- The same words without the check of products, which then wrap around. -/
def wrapping64 : SizeArithmetic :=
  { word64 with mul := fun m n ↦ .ok (m * n % Nat.pow 2 64) }

def reserve (sizes : SizeArithmetic) (n : Nat) : Except Violation Unit :=
  if sizes.canHold n then .ok () else .error .capacityExceeded

end SizeArithmetic

end GraphTransport
