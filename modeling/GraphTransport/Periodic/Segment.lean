import GraphTransport.Scalar
import GraphTransport.Sizes

namespace GraphTransport

/-- The segment `[0, length)` cut into cells of equal size, with its two ends identified. -/
structure PeriodicSegment (α : Type) where
  numCells : Nat
  length : α
deriving Repr

namespace PeriodicSegment

variable {α : Type} [Scalar α]

def create (numCells : Nat) (length : α) : Except Violation (PeriodicSegment α) := do
  if ¬ 2 ≤ numCells then
    throw .tooFewCells
  if ¬ 0 < length then
    throw .lengthNotPositive
  return { numCells, length }

def unit (numCells : Nat) : Except Violation (PeriodicSegment α) :=
  create numCells 1

def numNodes (s : PeriodicSegment α) : Nat := s.numCells

def cellSize (s : PeriodicSegment α) : α := s.length / (s.numCells : α)

def nodeCoordinate (s : PeriodicSegment α) (i : Nat) : α := (i : α) * s.cellSize

def nodeCoordinates (sizes : SizeArithmetic) (s : PeriodicSegment α) :
    Except Violation (Array α) := do
  sizes.reserve s.numNodes
  return ((List.range s.numNodes).map s.nodeCoordinate).toArray

end PeriodicSegment

end GraphTransport
