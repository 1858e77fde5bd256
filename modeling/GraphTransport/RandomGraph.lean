import GraphTransport.Evolution.Basic
import GraphTransport.Sparse.Triplets

namespace GraphTransport

structure DrawLimits where
  maxNodes : Nat
  maxExtraEdges : Nat
deriving DecidableEq, Repr

namespace DrawLimits

def default : DrawLimits := ⟨10, 12⟩

def check (limits : DrawLimits) : Except Violation Unit :=
  if 3 ≤ limits.maxNodes then .ok () else .error .tooFewNodes

end DrawLimits

namespace RandomGraph

def insertPair (e : Nat × Nat) : List (Nat × Nat) → List (Nat × Nat)
  | [] => [e]
  | e' :: rest =>
    if e = e' then e' :: rest
    else if e.1 < e'.1 ∨ (e.1 = e'.1 ∧ e.2 < e'.2) then e :: e' :: rest
    else e' :: insertPair e rest

def ring (n : Nat) : List (Nat × Nat) :=
  (List.range n).map fun i ↦ (i, (i + 1) % n)

/-- The edges of the ring and the drawn pairs without loops, each once with its smaller node first,
in ascending order. -/
def undirectedEdges (n : Nat) (extra : List (Nat × Nat)) : List (Nat × Nat) :=
  let edges := (ring n ++ extra).filter fun (i, j) ↦ i != j
  edges.foldl (fun sorted (i, j) ↦ insertPair (min i j, max i j) sorted) []

def isRingEdge (n : Nat) (e : Nat × Nat) : Bool :=
  e.2 == e.1 + 1 || (e.1 == 0 && e.2 == n - 1)

structure EdgeValues (α : Type) where
  mass : α
  forward : α
  backward : α
deriving Repr

/-- The values of an edge of a conservative graph: a mass, the symmetric part of its advection and
the circulation. The edge that closes the ring runs backwards. -/
def conservativeValues {α : Type} [Scalar α] (n : Nat) (circulation : α) (e : Nat × Nat)
    (mass symmetric : α) : EdgeValues α :=
  let c :=
    if isRingEdge n e then
      if e.2 = e.1 + 1 then circulation else -circulation
    else 0
  ⟨mass, symmetric + c, symmetric - c⟩

def operator {α : Type} [Scalar α] (n : Nat) (edges : List (Nat × Nat))
    (values : List (EdgeValues α)) (diagonal : List (α × α)) :
    Except Violation (GraphOperator α) := do
  let onDiagonal (value : α × α → α) : List (Triplet α) :=
    diagonal.zipIdx.map fun (v, i) ↦ ⟨i, i, value v⟩
  let offDiagonal (forward backward : EdgeValues α → α) : List (Triplet α) :=
    (edges.zip values).flatMap fun ((a, b), v) ↦ [⟨a, b, forward v⟩, ⟨b, a, backward v⟩]
  let mass ← CsrMatrix.ofTriplets n n
    (onDiagonal (·.1) ++ offDiagonal (·.mass) (·.mass))
  let advection ← CsrMatrix.ofTriplets n n
    (onDiagonal (·.2) ++ offDiagonal (·.forward) (·.backward))
  match GraphOperator.fromMatrices mass advection with
  | .ok g => return g
  | .error cause => throw (.invalidRandomOperator cause)

def general {α : Type} [Scalar α] (limits : DrawLimits) (n : Nat) (extra : List (Nat × Nat))
    (values : List (EdgeValues α)) (diagonal : List (α × α)) :
    Except Violation (GraphOperator α) := do
  limits.check
  operator n (undirectedEdges n extra) values diagonal

def conservative {α : Type} [Scalar α] (limits : DrawLimits) (n : Nat)
    (extra : List (Nat × Nat)) (values : List (α × α)) (circulation : α)
    (diagonal : List (α × α)) : Except Violation (GraphOperator α) := do
  limits.check
  let edges := undirectedEdges n extra
  let values := (edges.zip values).map fun (e, mass, symmetric) ↦
    conservativeValues n circulation e mass symmetric
  operator n edges values diagonal

end RandomGraph

end GraphTransport
