import GraphTransport.Periodic.Segment
import GraphTransport.Graph.Basic
import GraphTransport.Sparse.Triplets

namespace GraphTransport

structure ElementMatrix (α : Type) where
  entry : Bool → Bool → α

namespace PeriodicSegment

variable {α : Type} [Scalar α]

def elementMass (s : PeriodicSegment α) : ElementMatrix α :=
  let factor := s.cellSize / 6.0
  ⟨fun a b ↦ (if a = b then 2.0 else 1.0) * factor⟩

def elementConvection (velocity : α) : ElementMatrix α :=
  let factor := velocity / 2.0
  ⟨fun _ b ↦ (if b then 1.0 else -1.0) * factor⟩

def assemble (s : PeriodicSegment α) (element : ElementMatrix α) : List (Triplet α) :=
  (List.range s.numCells).flatMap fun e ↦
    let node (second : Bool) : Nat := if second then (e + 1) % s.numNodes else e
    [(false, false), (false, true), (true, false), (true, true)].map fun (a, b) ↦
      ⟨node a, node b, element.entry a b⟩

/-- The operator of advection around the segment. The diagonal of the convection sums to zero and is
stored all the same, so that both matrices store the closed neighbourhoods. -/
def advectionOperator (s : PeriodicSegment α) (velocity : α) :
    Except Violation (GraphOperator α) := do
  let n := s.numNodes
  let mass ← CsrMatrix.ofTriplets n n (s.assemble s.elementMass)
  let convection ← CsrMatrix.ofTriplets n n (s.assemble (elementConvection velocity))
  match GraphOperator.fromMatrices mass convection with
  | .ok g => return g
  | .error cause => throw (.invalidPeriodicOperator cause)

end PeriodicSegment

end GraphTransport
