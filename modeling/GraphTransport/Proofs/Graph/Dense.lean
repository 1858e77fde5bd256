import GraphTransport.Proofs.Scalar.Exact

namespace GraphTransport

namespace CsrMatrix

def entry {α : Type} [Zero α] (M : CsrMatrix α) (i j : Nat) : α :=
  (M.pattern.find? i j).elim 0 fun p ↦ M.values.getD p 0

theorem entry_eq_of_holds {α : Type} [Zero α] {M : CsrMatrix α} {i j : Nat} {v : α}
    (h : M.Holds i j v) : M.entry i j = v := by
  obtain ⟨p, hp, hv⟩ := h
  rw [entry, SparsityPattern.stores_iff_find?.1 hp, Option.elim_some, Array.getD_eq_getD_getElem?,
    hv, Option.getD_some]

theorem entry_eq_zero {α : Type} [Zero α] {M : CsrMatrix α} {i j : Nat}
    (h : ¬ M.pattern.Stored i j) : M.entry i j = 0 := by
  rw [entry, SparsityPattern.find?_eq_none_iff.2 h, Option.elim_none]

variable {F : Type} [Field F] [LinearOrder F]

theorem getD_rowSums {M : CsrMatrix F} {i : Nat} (hi : i < M.numRows) :
    M.rowSums.getD i 0 = ∑ j ∈ Finset.range M.numCols, M.entry i j := by
  have hvalues : M.rowValues i = (M.pattern.storage i).map fun p ↦ M.values.getD p 0 := by
    apply List.filterMap_eq_map_iff_forall_eq_some.2
    intro p hp
    have hstores := SparsityPattern.stores_iff_find?.2 (SparsityPattern.find?_column hp)
    exact values_getElem?_of_stores hstores
  have hsums : M.rowSums.getD i 0 = (M.rowValues i).sum := by
    rw [rowSums, getD_of_lt (by simpa using hi)]
    simp [List.sum_eq_foldl]
  rw [hsums, hvalues, SparsityPattern.storage_eq_filterMap]
  exact sum_map_filterMap_range _ _ _

def offDiagonalRowSum (M : CsrMatrix F) (i : Nat) : F :=
  ∑ j ∈ (Finset.range M.numCols).erase i, M.entry i j

def offDiagonalColumnSum (M : CsrMatrix F) (j : Nat) : F :=
  ∑ i ∈ (Finset.range M.numRows).erase j, M.entry i j

end CsrMatrix

namespace GraphOperator

def coupling {α : Type} [Scalar α] (g : GraphOperator α) (i j : Nat) : α :=
  (g.edge? i j).elim 0 Edge.forward

theorem coupling_self {α : Type} [Scalar α] (g : GraphOperator α) (i : Nat) :
    g.coupling i i = 0 := by
  rw [coupling, edge?, if_pos rfl, Option.elim_none]

theorem Accepted.coupling_eq_entry {α : Type} [Scalar α] {g : GraphOperator α} {i j : Nat}
    (hg : g.Accepted) (hij : i ≠ j) : g.coupling i j = g.advection.entry i j := by
  rw [coupling, edge?, if_neg hij, CsrMatrix.entry, ← hg.pattern_eq, Option.elim_map]
  rfl

variable {F : Type} [Field F] [LinearOrder F] {g : GraphOperator F}

theorem Accepted.sum_coupling_row (hg : g.Accepted) (i : Nat) :
    ∑ j ∈ Finset.range g.numNodes, g.coupling i j = g.advection.offDiagonalRowSum i := by
  have hcols : g.advection.numCols = g.numNodes := by
    rw [CsrMatrix.numCols, ← hg.pattern_eq]
    exact hg.numCols_eq
  rw [CsrMatrix.offDiagonalRowSum, hcols, ← Finset.sum_erase _ (g.coupling_self i)]
  exact Finset.sum_congr rfl fun j hj ↦ hg.coupling_eq_entry (Finset.ne_of_mem_erase hj).symm

theorem Accepted.sum_coupling_column (hg : g.Accepted) (j : Nat) :
    ∑ i ∈ Finset.range g.numNodes, g.coupling i j = g.advection.offDiagonalColumnSum j := by
  have hrows : g.advection.numRows = g.numNodes := by
    rw [CsrMatrix.numRows, ← hg.pattern_eq]
    exact hg.numRows_eq
  rw [CsrMatrix.offDiagonalColumnSum, hrows,
    ← Finset.sum_erase (f := fun i ↦ g.coupling i j) _ (g.coupling_self j)]
  exact Finset.sum_congr rfl fun i hi ↦ hg.coupling_eq_entry (Finset.ne_of_mem_erase hi)

end GraphOperator

end GraphTransport
