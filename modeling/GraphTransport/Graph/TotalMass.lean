import GraphTransport.Graph.Basic
import GraphTransport.Sizes
import GraphTransport.Evolution.Error

namespace GraphTransport

def variableBlock {α : Type} (x : Array α) (n var : Nat) : Except Violation (Array α) :=
  if (var + 1) * n ≤ x.size then .ok (x.extract (var * n) ((var + 1) * n))
  else .error .indexOutOfBounds

namespace GraphOperator

variable {α : Type} [Scalar α]

def weightedSum (g : GraphOperator α) (x : Array α) : α :=
  (g.lumpedMass.zip x).foldl (fun sum (m, xi) ↦ sum + m * xi) 0

def totalMass (sizes : SizeArithmetic) (g : GraphOperator α) (state : Array α) (numVars : Nat) :
    Except (Fault EvaluationError) (Array α) := do
  if numVars = 0 then
    throw (.refused .noVariables)
  let expected ← Fault.ofViolation (sizes.mul numVars g.numNodes)
  if state.size ≠ expected then
    throw (.refused (.stateSizeMismatch expected state.size))
  Fault.ofViolation do
    sizes.reserve numVars
    let totals ← (List.range numVars).mapM fun var ↦
      return g.weightedSum (← variableBlock state g.numNodes var)
    return totals.toArray

end GraphOperator

end GraphTransport
