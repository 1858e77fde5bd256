import GraphTransport.Scalar
import GraphTransport.Sparse.Pattern

namespace GraphTransport

structure CsrMatrix (α : Type) where
  pattern : SparsityPattern
  values : Array α
  size_values : values.size = pattern.nnz

namespace CsrMatrix

def numRows {α : Type} (M : CsrMatrix α) : Nat := M.pattern.numRows

def numCols {α : Type} (M : CsrMatrix α) : Nat := M.pattern.numCols

def rowValues {α : Type} (M : CsrMatrix α) (i : Nat) : List α :=
  (M.pattern.storage i).filterMap fun p ↦ M.values[p]?

def rowSums {α : Type} [Scalar α] (M : CsrMatrix α) : Array α :=
  ((List.range M.numRows).map fun i ↦ (M.rowValues i).foldl (· + ·) 0).toArray

end CsrMatrix

end GraphTransport
