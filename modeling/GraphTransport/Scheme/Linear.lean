import GraphTransport.Graph.Edge

namespace GraphTransport

@[inline] def Edge.lowOrderFlux {α : Type} [Scalar α] (e : Edge α) (xi xj : α) : α :=
  (e.viscosity - e.forward) * (xj - xi)

namespace GraphOperator

variable {α : Type} [Scalar α]

def lowOrderRate (g : GraphOperator α) (x : Array α) (i : Nat) : Except Violation α := do
  let xi ← fetch x i
  let sum ← (← g.edges i).foldlM (fun sum e ↦ do
    let xj ← fetch x e.neighbor
    return sum + e.lowOrderFlux xi xj) 0
  return sum / (← fetch g.lumpedMass i)

/-- The rate with `mᵢ u̇ᵢ = ∑ⱼ (-kᵢⱼ (uⱼ - uᵢ) + mᵢⱼ (zᵢ - zⱼ))`, given the low-order rates `z` of
all nodes. -/
def highOrderRate (g : GraphOperator α) (x z : Array α) (i : Nat) : Except Violation α := do
  let xi ← fetch x i
  let zi ← fetch z i
  let sum ← (← g.edges i).foldlM (fun sum e ↦ do
    let xj ← fetch x e.neighbor
    let zj ← fetch z e.neighbor
    return sum - e.forward * (xj - xi) + e.mass * (zi - zj)) 0
  return sum / (← fetch g.lumpedMass i)

end GraphOperator

end GraphTransport
