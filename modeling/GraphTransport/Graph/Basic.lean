import GraphTransport.Violation
import GraphTransport.Sparse.Matrix
import GraphTransport.Graph.Error

namespace GraphTransport

structure GraphOperator (α : Type) where
  mass : CsrMatrix α
  advection : CsrMatrix α
  lumpedMass : Array α
  /-- For the storage offset of every `(i, j)`, the storage offset of `(j, i)`. -/
  transposeOffsets : Array Nat

def SparsityPattern.transposeOffsets (P : SparsityPattern) : Except GraphError (Array Nat) := do
  let offsets ← P.entries.mapM fun e ↦
    match P.find? e.column e.row with
    | some q => .ok q
    | none => .error (.notStructurallySymmetric e.row e.column)
  return offsets.toArray

def CsrMatrix.checkSquare {α : Type} (name : String) (A : CsrMatrix α) :
    Except GraphError Unit :=
  if A.numRows = A.numCols then .ok () else .error (.notSquare name A.numRows A.numCols)

/-- Refuses a matrix with a stored value that differs from its transposed one. A value that is not
a number differs from itself. -/
def CsrMatrix.checkSymmetric {α : Type} [BEq α] (M : CsrMatrix α) (transposed : Array Nat) :
    Except GraphError Unit :=
  let symmetric (e : SparsityPattern.Entry) : Bool :=
    match M.values[e.offset]?, transposed[e.offset]?.bind (M.values[·]?) with
    | some m, some m' => m == m'
    | _, _ => false
  match M.pattern.entries.find? fun e ↦ !symmetric e with
  | some e => .error (.massNotSymmetric e.row e.column)
  | none => .ok ()

def checkLumpedMass {α : Type} [Scalar α] (numNodes : Nat) (lumped : Array α) :
    Except GraphError Unit :=
  if lumped.size ≠ numNodes then
    .error (.lumpedMassLength numNodes lumped.size)
  else
    match lumped.findIdx? fun m ↦ !decide (0 < m) with
    | some dof => .error (.nonPositiveLumpedMass dof)
    | none => .ok ()

namespace GraphOperator

variable {α : Type}

def withLumpedMass [Scalar α] (mass advection : CsrMatrix α) (lumpedMass : Array α) :
    Except GraphError (GraphOperator α) := do
  mass.checkSquare "mass"
  advection.checkSquare "advection"
  if mass.pattern ≠ advection.pattern then
    throw .sparsityMismatch
  let transposeOffsets ← mass.pattern.transposeOffsets
  mass.checkSymmetric transposeOffsets
  checkLumpedMass mass.numRows lumpedMass
  return { mass, advection, lumpedMass, transposeOffsets }

def fromMatrices [Scalar α] (mass advection : CsrMatrix α) :
    Except GraphError (GraphOperator α) :=
  withLumpedMass mass advection mass.rowSums

def numNodes (g : GraphOperator α) : Nat := g.lumpedMass.size

def pattern (g : GraphOperator α) : SparsityPattern := g.mass.pattern

def nnz (g : GraphOperator α) : Nat := g.pattern.nnz

end GraphOperator

end GraphTransport
