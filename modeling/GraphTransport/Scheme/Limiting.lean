import GraphTransport.Scheme.Linear

namespace GraphTransport

structure Endpoint (α : Type) where
  value : α
  rate : α
  bounds : Bounds α
deriving Repr

namespace Edge

variable {α : Type} [Scalar α]

def targetFlux (e : Edge α) (here there : Endpoint α) : α :=
  e.mass * (here.rate - there.rate) + e.viscosity * (here.value - there.value)

def barHere (e : Edge α) (here there : Endpoint α) : α :=
  e.viscosity * (here.value + there.value) - e.forward * (there.value - here.value)

def barThere (e : Edge α) (here there : Endpoint α) : α :=
  e.viscosity * (here.value + there.value) - e.backward * (here.value - there.value)

/-- The target flux `fᵢⱼ = mᵢⱼ (zᵢ - zⱼ) + dᵢⱼ (uᵢ - uⱼ)`, clipped so that the bar states of both
ends, scaled by `2 dᵢⱼ`, stay within the local bounds of their own end. -/
def limitedFlux (e : Edge α) (here there : Endpoint α) : α :=
  let d := e.viscosity
  let f := e.targetFlux here there
  let w := e.barHere here there
  let w' := e.barThere here there
  if 0 < f then
    min f (min (2 * d * here.bounds.upper - w) (w' - 2 * d * there.bounds.lower))
  else
    max f (max (2 * d * here.bounds.lower - w) (w' - 2 * d * there.bounds.upper))

end Edge

/-- Runs along the columns of row `i` and its edges together: zero on the diagonal, and the flux
of the next edge at every other column. -/
def alignFluxes {α : Type} [Zero α] (i : Nat) (flux : Nat → Edge α → Except Violation α) :
    List Nat → List (Edge α) → Except Violation (List α)
  | [], _ => return []
  | j :: columns, edges =>
    if j = i then
      return 0 :: (← alignFluxes i flux columns edges)
    else
      match edges with
      | [] => throw .edgesExhausted
      | e :: edges => return (← flux j e) :: (← alignFluxes i flux columns edges)

namespace GraphOperator

variable {α : Type} [Scalar α]

def endpoint (g : GraphOperator α) (x z : Array α) (i : Nat) : Except Violation (Endpoint α) := do
  let bounds ← g.localBounds i x
  return ⟨← fetch x i, ← fetch z i, bounds⟩

def mclRate (g : GraphOperator α) (x z : Array α) (i : Nat) : Except Violation α := do
  let here ← g.endpoint x z i
  let sum ← (← g.edges i).foldlM (fun sum e ↦ do
    let there ← g.endpoint x z e.neighbor
    return sum + e.lowOrderFlux here.value there.value + e.limitedFlux here there) 0
  return sum / (← fetch g.lumpedMass i)

def limitedFluxes (g : GraphOperator α) (x z : Array α) : Except Violation (Array α) := do
  if x.size ≠ g.numNodes then
    throw .stateLength
  if z.size ≠ g.numNodes then
    throw .lowOrderRateLength
  let rows ← (List.range g.numNodes).mapM fun i ↦ do
    let here ← g.endpoint x z i
    alignFluxes i (fun j e ↦ return e.limitedFlux here (← g.endpoint x z j))
      (← g.neighborhood i) (← g.edges i)
  return rows.flatten.toArray

end GraphOperator

end GraphTransport
