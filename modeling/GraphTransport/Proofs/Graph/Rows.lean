import GraphTransport.Proofs.Graph.CheckedConstruction
import GraphTransport.Proofs.Graph.Edges

namespace GraphTransport

/-- The elements of an array from `start` to just before `stop`, both of which must lie within the
array even if nothing lies between them. -/
def cut {α : Type} (xs : Array α) (start stop : Nat) : Except Violation (List α) :=
  if stop ≤ xs.size then fetchSlice xs start stop else .error .indexOutOfBounds

/-- A row of a graph with its part of the arrays. The coefficients of the opposite directions are
stored in other rows, so the row has the whole storage of the advection as well. -/
structure GraphRow (α : Type) where
  node : Nat
  columns : List Nat
  mass : List α
  advection : List α
  transposeOffsets : List Nat
  advectionStorage : Array α

namespace GraphRow

variable {α : Type}

def edges (row : GraphRow α) : Except Violation (List (Edge α)) :=
  let entries := row.columns.zip (row.mass.zip (row.advection.zip row.transposeOffsets))
  (entries.filter fun (j, _) ↦ j != row.node).mapM fun (j, mass, forward, q) ↦
    return ⟨j, mass, forward, ← fetch row.advectionStorage q⟩

def localBounds [Scalar α] (row : GraphRow α) (x : Array α) : Except Violation (Bounds α) := do
  let xi ← fetch x row.node
  row.columns.foldlM (fun bounds j ↦ do
    let xj ← fetch x j
    return ⟨min bounds.lower xj, max bounds.upper xj⟩) ⟨xi, xi⟩

end GraphRow

namespace GraphOperator

variable {α : Type}

def row (g : GraphOperator α) (i : Nat) : Except Violation (GraphRow α) := do
  let start ← fetch g.pattern.rowOffsets i
  let stop ← fetch g.pattern.rowOffsets (i + 1)
  let columns ← cut g.pattern.columns start stop
  let mass ← cut g.mass.values start stop
  let advection ← cut g.advection.values start stop
  let transposeOffsets ← cut g.transposeOffsets start stop
  return ⟨i, columns, mass, advection, transposeOffsets, g.advection.values⟩

variable [Scalar α]

def rowAt (g : GraphOperator α) (i : Nat) : GraphRow α where
  node := i
  columns := (g.pattern.storage i).map g.pattern.column
  mass := (g.pattern.storage i).map fun p ↦ g.mass.values.getD p 0
  advection := (g.pattern.storage i).map fun p ↦ g.advection.values.getD p 0
  transposeOffsets := (g.pattern.storage i).map fun p ↦ g.transposeOffsets.getD p 0
  advectionStorage := g.advection.values

end GraphOperator

theorem SparsityPattern.cut_offsets {β : Type} [Zero β] {P : SparsityPattern} {xs : Array β}
    (hsize : xs.size = P.nnz) (i : Nat) : cut xs (P.offset i) (P.offset (i + 1)) =
      .ok ((P.storage i).map fun p ↦ xs.getD p 0) := by
  have hstop : P.offset (i + 1) ≤ xs.size := P.offset_le_nnz.trans_eq hsize.symm
  rw [cut, if_pos hstop, fetchSlice_offsets]
  refine mapM_eq_ok_map fun p hp ↦ fetch_eq_ok_getD ?_
  exact (lt_nnz_of_mem_storage hp).trans_eq hsize.symm

namespace GraphOperator.Accepted

variable {α : Type} [Scalar α] {g : GraphOperator α} {i : Nat}

theorem row_eq (hg : g.Accepted) (hi : i < g.numNodes) : g.row i = .ok (g.rowAt i) := by
  have hrow : i < g.pattern.numRows := hi.trans_eq hg.numRows_eq.symm
  have hcolumns : g.pattern.columns.size = g.pattern.nnz := rfl
  rw [row, SparsityPattern.fetch_rowOffsets hrow.le, ok_bind,
    SparsityPattern.fetch_rowOffsets hrow, ok_bind, SparsityPattern.cut_offsets hcolumns, ok_bind,
    SparsityPattern.cut_offsets (size_mass g), ok_bind,
    SparsityPattern.cut_offsets hg.size_advection, ok_bind,
    SparsityPattern.cut_offsets hg.size_transposeOffsets, ok_bind]
  rfl

theorem columns_rowAt (hg : g.Accepted) (i : Nat) : (g.rowAt i).columns = g.neighbors i :=
  hg.map_column_storage i

theorem edges_rowAt (hg : g.Accepted) (i : Nat) : (g.rowAt i).edges = .ok (g.edgeList i) := by
  simp only [GraphRow.edges, rowAt, List.zip_map', List.filter_map, List.mapM_map]
  rw [← hg.map_storedEdge_storage]
  refine mapM_eq_ok_map fun p hp ↦ ?_
  have hp := (List.mem_filter.1 hp).1
  simp only [Function.comp_apply, hg.fetch_transposed hp, ok_bind]
  rfl

theorem localBounds_rowAt (hg : g.Accepted) (hi : i < g.numNodes) (x : Array α) :
    (g.rowAt i).localBounds x = g.localBounds i x := by
  rw [GraphRow.localBounds, hg.columns_rowAt, localBounds, hg.neighborhood_eq hi]
  rfl

end GraphOperator.Accepted

end GraphTransport
