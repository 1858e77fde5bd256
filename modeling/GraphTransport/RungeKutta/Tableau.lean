import GraphTransport.Violation
import GraphTransport.Scalar

namespace GraphTransport

structure Tableau (α : Type) where
  name : String
  numStages : Nat
  /-- How much of slope `l` enters the state of stage `s`. -/
  coefficients : Vector (Vector α numStages) numStages
  weights : Vector α numStages

namespace Tableau

variable {α : Type} [Scalar α]

def isStrictlyLower {n : Nat} (coefficients : Vector (Vector α n) n) : Bool :=
  (List.finRange n).all fun s ↦ (List.finRange n).all fun l ↦
    l < s || coefficients[s][l] == 0

/-- The method with the coefficients `a`, row after row, and the weights `b`: one row of as many
coefficients per weight, and none on or above the diagonal. -/
def ofCoefficients (name : String) (a b : Array α) : Except Violation (Tableau α) :=
  let n := b.size
  if n = 0 then
    .error .noStages
  else if h : a.size = n * n then
    let coefficients : Vector (Vector α n) n := Vector.ofFn fun s ↦ Vector.ofFn fun l ↦
      have : s.val * n + l.val < a.size := by
        have := Nat.mul_le_mul_right n s.isLt
        rw [Nat.succ_mul] at this
        omega
      a[s.val * n + l.val]
    if isStrictlyLower coefficients then
      .ok { name, numStages := n, coefficients, weights := b.toVector }
    else
      .error .tableauNotStrictlyLower
  else
    .error .tableauDimensions

end Tableau

end GraphTransport
