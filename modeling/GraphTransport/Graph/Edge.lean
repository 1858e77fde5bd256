import GraphTransport.Graph.Basic

namespace GraphTransport

/-- The artificial diffusion of an edge with the advection coefficients `k` and `k'` in its two
directions. It is symmetric in them, so both ends of the edge see the same value. -/
@[inline] def graphViscosity {α : Type} [Scalar α] (k k' : α) : α :=
  max (Scalar.abs k) (Scalar.abs k')

structure Edge (α : Type) where
  neighbor : Nat
  mass : α
  forward : α
  backward : α
deriving Repr

@[inline] def Edge.viscosity {α : Type} [Scalar α] (e : Edge α) : α :=
  graphViscosity e.forward e.backward

structure Bounds (α : Type) where
  lower : α
  upper : α
deriving Repr

namespace GraphOperator

variable {α : Type}

def rowStorage (g : GraphOperator α) (i : Nat) : Except Violation (List Nat) := do
  let start ← fetch g.pattern.rowOffsets i
  let stop ← fetch g.pattern.rowOffsets (i + 1)
  return List.range' start (stop - start)

def neighborhood (g : GraphOperator α) (i : Nat) : Except Violation (List Nat) := do
  (← g.rowStorage i).mapM (fetch g.pattern.columns)

def edgeAt (g : GraphOperator α) (j p : Nat) : Except Violation (Edge α) := do
  let mass ← fetch g.mass.values p
  let forward ← fetch g.advection.values p
  let backward ← fetch g.advection.values (← fetch g.transposeOffsets p)
  return ⟨j, mass, forward, backward⟩

def edges (g : GraphOperator α) (i : Nat) : Except Violation (List (Edge α)) := do
  let stored ← (← g.rowStorage i).mapM fun p ↦ return (← fetch g.pattern.columns p, p)
  (stored.filter fun (j, _) ↦ j != i).mapM fun (j, p) ↦ g.edgeAt j p

def localBounds [Scalar α] (g : GraphOperator α) (i : Nat) (x : Array α) :
    Except Violation (Bounds α) := do
  let xi ← fetch x i
  (← g.neighborhood i).foldlM (fun bounds j ↦ do
    let xj ← fetch x j
    return ⟨min bounds.lower xj, max bounds.upper xj⟩) ⟨xi, xi⟩

def viscosity? [Scalar α] (g : GraphOperator α) (i j : Nat) : Option α := do
  guard (i < g.numNodes)
  let p ← g.pattern.find? i j
  let forward ← g.advection.values[p]?
  let backward ← g.advection.values[← g.transposeOffsets[p]?]?
  return graphViscosity forward backward

end GraphOperator

end GraphTransport
