import GraphTransport.Scheme.Basic
import GraphTransport.Scheme.Linear
import GraphTransport.Scheme.Limiting

namespace GraphTransport.Scheme

variable {α : Type} [Scalar α]

/-- The rate of node `i`. The low-order scheme does not look at `z`, the others take it as the
low-order rates of all nodes. -/
def rowRate (scheme : Scheme) (g : GraphOperator α) (x z : Array α) (i : Nat) :
    Except Violation α :=
  match scheme with
  | lowOrder => g.lowOrderRate x i
  | highOrder => g.highOrderRate x z i
  | mcl => g.mclRate x z i

def rates (scheme : Scheme) (g : GraphOperator α) (x z out : Array α) :
    Except Violation (Array α) := do
  if x.size ≠ g.numNodes then
    throw .stateLength
  if scheme.needsLowOrderRates ∧ z.size ≠ g.numNodes then
    throw .lowOrderRateLength
  if out.size ≠ g.numNodes then
    throw .outputLength
  let values ← (List.range out.size).mapM (scheme.rowRate g x z)
  return values.toArray

end GraphTransport.Scheme
