import GraphTransport.Graph.Edge

namespace GraphTransport.GraphOperator

variable {α : Type} [Scalar α]

def rowTimeStep? (g : GraphOperator α) (i : Nat) : Except Violation (Option α) := do
  let viscositySum := (← g.edges i).foldl (fun sum e ↦ sum + e.viscosity) 0
  if 0 < viscositySum then
    return some ((← fetch g.lumpedMass i) / ((1 + 1) * viscositySum))
  else
    return none

/-- The largest explicit Euler step for which the low-order and the limited scheme keep local
bounds: the least step size that a row allows, and none if no row restricts it. -/
def stableTimeStep? (g : GraphOperator α) : Except Violation (Option α) := do
  let steps ← (List.range g.numNodes).mapM g.rowTimeStep?
  match steps.filterMap id with
  | [] => return none
  | dt :: rest => return some (rest.foldl min dt)

end GraphTransport.GraphOperator
