import GraphTransport.Proofs.Graph.Construction
import GraphTransport.Proofs.Scalar.NonnegativeSums

namespace GraphTransport

variable {α : Type} [Scalar α]

theorem CsrMatrix.rowSums_pos [NonnegativeSums α] {M : CsrMatrix α}
    (hnonneg : ∀ i j v, M.Holds i j v → 0 ≤ v)
    (hpos : ∀ i < M.numRows, ∃ j v, M.Holds i j v ∧ 0 < v) : ∀ m ∈ M.rowSums, 0 < m := by
  intro m hm
  obtain ⟨i, hi, rfl⟩ : ∃ i < M.numRows, (M.rowValues i).foldl (· + ·) 0 = m := by
    simpa [rowSums] using hm
  apply NonnegativeSums.foldl_add_pos NonnegativeSums.zero_nonneg
  · intro v hv
    obtain ⟨j, hv⟩ := mem_rowValues_iff.1 hv
    exact hnonneg i j v hv
  · obtain ⟨j, v, hv, hvpos⟩ := hpos i hi
    exact ⟨v, mem_rowValues_iff.2 ⟨j, hv⟩, hvpos⟩

namespace GraphOperator

structure Lumpable (n : Nat) (mass advection : CsrMatrix α) : Prop where
  mass_numRows : mass.numRows = n
  mass_numCols : mass.numCols = n
  advection_numRows : advection.numRows = n
  advection_numCols : advection.numCols = n
  stored_iff : ∀ i j, mass.pattern.Stored i j ↔ advection.pattern.Stored i j
  holds_comm : ∀ i j m, mass.Holds i j m → mass.Holds j i m
  nonneg : ∀ i j m, mass.Holds i j m → 0 ≤ m
  exists_pos : ∀ i < n, ∃ j m, mass.Holds i j m ∧ 0 < m

variable [NonnegativeSums α] {n : Nat} {mass advection : CsrMatrix α}

theorem Lumpable.acceptable (h : Lumpable n mass advection) :
    Acceptable mass advection mass.rowSums where
  mass_square := h.mass_numRows.trans h.mass_numCols.symm
  advection_square := h.advection_numRows.trans h.advection_numCols.symm
  same_pattern := by
    apply SparsityPattern.eq_of_stored_iff
    · exact h.mass_numRows.trans h.advection_numRows.symm
    · exact h.mass_numCols.trans h.advection_numCols.symm
    · exact h.stored_iff
  structurally_symmetric i j hij := by
    obtain ⟨m, hm⟩ := CsrMatrix.stored_iff_exists_holds.1 hij
    exact CsrMatrix.stored_iff_exists_holds.2 ⟨m, h.holds_comm i j m hm⟩
  mass_symmetric i j m m' hm hm' := by
    rw [hm'.unique (h.holds_comm i j m hm)]
    exact NonnegativeSums.beq_self (h.nonneg i j m hm)
  lumped_length := by simp [CsrMatrix.rowSums]
  lumped_positive i m hm := by
    apply CsrMatrix.rowSums_pos h.nonneg ?_ m (Array.mem_of_getElem? hm)
    rw [h.mass_numRows]
    exact h.exists_pos

theorem Lumpable.exists_fromMatrices (h : Lumpable n mass advection) :
    ∃ g, fromMatrices mass advection = .ok g ∧ g.mass = mass ∧ g.advection = advection ∧
      g.lumpedMass = mass.rowSums ∧ g.Accepted := by
  obtain ⟨g, hg⟩ := exists_withLumpedMass_eq_ok_iff.2 h.acceptable
  exact ⟨g, hg, withLumpedMass_eq_ok_iff.1 hg⟩

end GraphOperator

end GraphTransport
