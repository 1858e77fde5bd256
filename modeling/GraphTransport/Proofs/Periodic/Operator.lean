import GraphTransport.Proofs.Graph.DenseView
import GraphTransport.Proofs.Periodic.Stencil

namespace GraphTransport.PeriodicSegment

variable {F : Type} [Field F] [LinearOrder F] [IsStrictOrderedRing F] {s : PeriodicSegment F}
  {velocity : F} {g : GraphOperator F} {i j : Nat} {m k : F}

def nextEdge (s : PeriodicSegment F) (velocity : F) (i : Nat) : Edge F :=
  ⟨nextNode s.numCells i, s.cellSize / 6, velocity / 2, -(velocity / 2)⟩

def previousEdge (s : PeriodicSegment F) (velocity : F) (i : Nat) : Edge F :=
  ⟨previousNode s.numCells i, s.cellSize / 6, -(velocity / 2), velocity / 2⟩

theorem viscosity_nextEdge : (s.nextEdge velocity i).viscosity = |velocity| / 2 := by
  rw [Edge.viscosity, nextEdge, graphViscosity]
  simp [Scalar.abs, abs_div]

theorem viscosity_previousEdge : (s.previousEdge velocity i).viscosity = |velocity| / 2 := by
  rw [← viscosity_nextEdge (s := s) (i := i)]
  exact SymmetricViscosity.graphViscosity_comm _ _

theorem entry_elementMass (a b : Bool) : s.elementMass.entry a b =
    if a = b then s.cellSize / 3 else s.cellSize / 6 := by
  simp only [elementMass]
  split
  · norm_num
    ring
  · norm_num

theorem entry_elementConvection (a b : Bool) : (elementConvection velocity).entry a b =
    if b then velocity / 2 else -(velocity / 2) := by
  simp only [elementConvection]
  split <;> norm_num

theorem Assembles.offDiagonalRowSum_eq {element : ElementMatrix F} {N : CsrMatrix F}
    (h : s.Assembles element N) (hi : i < s.numCells) :
    N.offDiagonalRowSum i = N.offDiagonalColumnSum i := by
  have hmem : i ∈ Finset.range s.numCells := Finset.mem_range.2 hi
  -- Whole rows and whole columns add up to all contributions of a cell.
  have hrow : N.offDiagonalRowSum i + N.entry i i =
      ∑ j ∈ Finset.range s.numCells, element.around s.numCells i j := by
    rw [CsrMatrix.offDiagonalRowSum, h.numCols_eq]
    exact (Finset.sum_erase_add _ _ hmem).trans
      (Finset.sum_congr rfl fun j _ ↦ h.entry_eq_around hi)
  have hcolumn : N.offDiagonalColumnSum i + N.entry i i =
      ∑ j ∈ Finset.range s.numCells, element.around s.numCells j i := by
    rw [CsrMatrix.offDiagonalColumnSum, h.numRows_eq]
    exact (Finset.sum_erase_add _ _ hmem).trans
      (Finset.sum_congr rfl fun j hj ↦ h.entry_eq_around (Finset.mem_range.1 hj))
  rw [sum_around_row hi] at hrow
  rw [sum_around_column hi] at hcolumn
  exact add_right_cancel (hrow.trans hcolumn.symm)

namespace IsAssembled

variable (h : s.IsAssembled velocity g)

include h

theorem lumpedAt_eq (hi : i < s.numCells) : g.lumpedAt i = s.cellSize := by
  have hrow : i < g.mass.numRows := hi.trans_eq h.mass.numRows_eq.symm
  have hsum : g.lumpedAt i =
      ∑ j ∈ Finset.range s.numCells, s.elementMass.around s.numCells i j := by
    rw [GraphOperator.lumpedAt, h.lumpedMass_eq, CsrMatrix.getD_rowSums hrow, h.mass.numCols_eq]
    exact Finset.sum_congr rfl fun j _ ↦ h.mass.entry_eq_around hi
  rw [hsum, sum_around_row hi]
  simp only [entry_elementMass]
  norm_num
  ring

section Three

variable (hn : 3 ≤ s.numCells)

include hn

theorem mass_holds_iff : g.mass.Holds i j m ↔ i < s.numCells ∧
    (j = i ∧ m = 2 * s.cellSize / 3 ∨ j = nextNode s.numCells i ∧ m = s.cellSize / 6 ∨
      j = previousNode s.numCells i ∧ m = s.cellSize / 6) := by
  have hdiagonal : s.cellSize / 3 + s.cellSize / 3 = 2 * s.cellSize / 3 := by ring
  rw [h.mass.holds_iff_of_three hn]
  simp [entry_elementMass, hdiagonal]

theorem advection_holds_iff : g.advection.Holds i j k ↔ i < s.numCells ∧
    (j = i ∧ k = 0 ∨ j = nextNode s.numCells i ∧ k = velocity / 2 ∨
      j = previousNode s.numCells i ∧ k = -(velocity / 2)) := by
  rw [h.advection.holds_iff_of_three hn]
  simp [entry_elementConvection]

theorem edge?_next (hi : i < s.numCells) :
    g.edge? i (nextNode s.numCells i) = some (s.nextEdge velocity i) := by
  have hback : i = previousNode s.numCells (nextNode s.numCells i) :=
    (nextNode_eq_iff hi (nextNode_lt hi)).1 rfl
  rw [h.accepted.edge?_eq_some_iff_holds, h.mass_holds_iff hn, h.advection_holds_iff hn,
    h.advection_holds_iff hn]
  exact ⟨rfl, nextNode_ne_self (Nat.le_of_succ_le hn) hi, ⟨hi, Or.inr (Or.inl ⟨rfl, rfl⟩)⟩,
    ⟨hi, Or.inr (Or.inl ⟨rfl, rfl⟩)⟩, nextNode_lt hi, Or.inr (Or.inr ⟨hback, rfl⟩)⟩

theorem edge?_previous (hi : i < s.numCells) :
    g.edge? i (previousNode s.numCells i) = some (s.previousEdge velocity i) := by
  have hback : i = nextNode s.numCells (previousNode s.numCells i) :=
    ((nextNode_eq_iff (previousNode_lt hi) hi).2 rfl).symm
  rw [h.accepted.edge?_eq_some_iff_holds, h.mass_holds_iff hn, h.advection_holds_iff hn,
    h.advection_holds_iff hn]
  exact ⟨rfl, previousNode_ne_self (Nat.le_of_succ_le hn) hi, ⟨hi, Or.inr (Or.inr ⟨rfl, rfl⟩)⟩,
    ⟨hi, Or.inr (Or.inr ⟨rfl, rfl⟩)⟩, previousNode_lt hi, Or.inr (Or.inl ⟨hback, rfl⟩)⟩

theorem sum_edges (hi : i < s.numCells) (f : Nat → Edge F → F) :
    ∑ j ∈ Finset.range g.numNodes, (g.edge? i j).elim 0 (f j) =
      f (nextNode s.numCells i) (s.nextEdge velocity i) +
        f (previousNode s.numCells i) (s.previousEdge velocity i) := by
  rw [h.numNodes_eq, Finset.sum_eq_add_of_mem _ _ (Finset.mem_range.2 (nextNode_lt hi))
    (Finset.mem_range.2 (previousNode_lt hi)) (nextNode_ne_previousNode hn hi),
    h.edge?_next hn hi, h.edge?_previous hn hi, Option.elim_some, Option.elim_some]
  intro j _ hj
  cases hedge : g.edge? i j with
  | none => rfl
  | some e =>
    obtain ⟨-, hji, hmass, -⟩ := h.accepted.edge?_eq_some_iff_holds.1 hedge
    simp [h.mass_holds_iff hn, hji, hj.1, hj.2] at hmass

theorem viscositySumAt_eq (hi : i < s.numCells) : g.viscositySumAt i = |velocity| := by
  rw [GraphOperator.viscositySumAt_eq_sum, h.sum_edges hn hi fun _ ↦ Edge.viscosity,
    viscosity_nextEdge, viscosity_previousEdge, add_halves]

end Three

/-- With two cells the contributions of both cells cancel. -/
theorem viscositySumAt_eq_zero (hn : s.numCells = 2) : g.viscositySumAt i = 0 := by
  rw [GraphOperator.viscositySumAt_eq_sum]
  refine Finset.sum_eq_zero fun j _ ↦ ?_
  cases hedge : g.edge? i j with
  | none => rfl
  | some e =>
    obtain ⟨-, -, -, hforward, hbackward⟩ := h.accepted.edge?_eq_some_iff_holds.1 hedge
    have hzero {i j : Nat} {k : F} (hk : g.advection.Holds i j k) : k = 0 := by
      obtain ⟨-, -, rfl⟩ := (h.advection.holds_iff_of_two hn).1 hk
      simp [entry_elementConvection]
    rw [Option.elim_some, Edge.viscosity, hzero hforward, hzero hbackward]
    simp [graphViscosity, Scalar.abs]

theorem timeStepLimit_eq (hn : 2 ≤ s.numCells) : g.timeStepLimit =
    if velocity ≠ 0 ∧ 3 ≤ s.numCells then some (s.cellSize / (2 * |velocity|)) else none := by
  have hnodes : 0 < g.numNodes := by
    rw [h.numNodes_eq]
    omega
  refine GraphOperator.timeStepLimit_eq_of_rows hnodes fun i hi ↦ ?_
  rw [h.numNodes_eq] at hi
  rw [GraphOperator.rowTimeStepAt, h.lumpedAt_eq hi]
  by_cases hthree : 3 ≤ s.numCells
  · rw [h.viscositySumAt_eq hthree hi]
    simp only [abs_pos, hthree, and_true, one_add_one_eq_two]
  · rw [h.viscositySumAt_eq_zero (by omega), if_neg (lt_irrefl 0), if_neg fun hv ↦ hthree hv.2]

end IsAssembled

structure IsAdvectionAround (n : Nat) (h v : F) (g : GraphOperator F) : Prop where
  numNodes_eq : g.numNodes = n
  mass_iff : 3 ≤ n → ∀ i j m, g.mass.Holds i j m ↔ i < n ∧
    (j = i ∧ m = 2 * h / 3 ∨ j = nextNode n i ∧ m = h / 6 ∨ j = previousNode n i ∧ m = h / 6)
  advection_iff : 3 ≤ n → ∀ i j k, g.advection.Holds i j k ↔ i < n ∧
    (j = i ∧ k = 0 ∨ j = nextNode n i ∧ k = v / 2 ∨ j = previousNode n i ∧ k = -(v / 2))
  mass_iff_of_two : n = 2 → ∀ i j m, g.mass.Holds i j m ↔
    i < 2 ∧ j < 2 ∧ m = if j = i then 2 * h / 3 else h / 3
  advection_iff_of_two : n = 2 → ∀ i j k, g.advection.Holds i j k ↔ i < 2 ∧ j < 2 ∧ k = 0
  lumpedMass_eq : ∀ i < n, g.lumpedMass[i]? = some h
  balanced : ∀ i < n, g.advection.offDiagonalRowSum i = g.advection.offDiagonalColumnSum i
  stableTimeStep : g.stableTimeStep? = .ok (if v ≠ 0 ∧ 3 ≤ n then some (h / (2 * |v|)) else none)

theorem IsAssembled.isAdvectionAround (h : s.IsAssembled velocity g) (hcells : 2 ≤ s.numCells) :
    IsAdvectionAround s.numCells s.cellSize velocity g where
  numNodes_eq := h.numNodes_eq
  mass_iff hn _ _ _ := h.mass_holds_iff hn
  advection_iff hn _ _ _ := h.advection_holds_iff hn
  mass_iff_of_two hn i j m := by
    have hdiagonal : s.cellSize / 3 + s.cellSize / 3 = 2 * s.cellSize / 3 := by ring
    have hother : s.cellSize / 6 + s.cellSize / 6 = s.cellSize / 3 := by ring
    rw [h.mass.holds_iff_of_two hn]
    simp [entry_elementMass, hdiagonal, hother]
  advection_iff_of_two hn i j k := by
    rw [h.advection.holds_iff_of_two hn]
    simp [entry_elementConvection]
  lumpedMass_eq i hi := by
    have hnode : i < g.lumpedMass.size := hi.trans_eq h.numNodes_eq.symm
    rw [← h.lumpedAt_eq hi, GraphOperator.lumpedAt, getD_of_lt hnode,
      Array.getElem?_eq_getElem hnode]
  balanced _ hi := h.advection.offDiagonalRowSum_eq hi
  stableTimeStep := by
    rw [h.accepted.stableTimeStep?_eq, h.timeStepLimit_eq hcells]

/-- The operator of advection around a segment, entry by entry, with its lumped mass, its balance
and its restriction of the step. -/
theorem isAdvectionAround_of_create {numCells : Nat} (hcells : 2 ≤ numCells) {length : F}
    (hlength : 0 < length) (velocity : F) : ∃ s g, create numCells length = .ok s ∧
      s.advectionOperator velocity = .ok g ∧
      IsAdvectionAround numCells (length / numCells) velocity g := by
  let s : PeriodicSegment F := ⟨numCells, length⟩
  obtain ⟨g, hg, h⟩ := exists_isAssembled (s := s) (Nat.zero_lt_of_lt hcells) hlength velocity
  exact ⟨s, g, create_eq_ok_iff.2 ⟨hcells, hlength, rfl⟩, hg, h.isAdvectionAround hcells⟩

theorem isAdvectionAround_of_create_four : ∃ s g, create 4 (2 : ℚ) = .ok s ∧
    s.advectionOperator (-3) = .ok g ∧ g.mass.Holds 3 0 (1 / 12) ∧
    g.advection.Holds 0 3 (3 / 2) ∧ ¬ g.pattern.Stored 1 3 ∧
    g.stableTimeStep? = .ok (some (1 / 12)) := by
  have hcells : 2 ≤ 4 := by decide
  have hlength : (0 : ℚ) < 2 := by norm_num
  obtain ⟨s, g, hs, hg, h⟩ := isAdvectionAround_of_create hcells hlength (-3)
  refine ⟨s, g, hs, hg, ?_, ?_, ?_, ?_⟩
  · refine (h.mass_iff (by decide) 3 0 _).2 ⟨by decide, Or.inr (Or.inl ⟨by decide, ?_⟩)⟩
    norm_num
  · refine (h.advection_iff (by decide) 0 3 _).2 ⟨by decide, Or.inr (Or.inr ⟨by decide, ?_⟩)⟩
    norm_num
  · intro hstored
    obtain ⟨m, hm⟩ := CsrMatrix.stored_iff_exists_holds.1 hstored
    simp [h.mass_iff, nextNode, previousNode] at hm
  · rw [h.stableTimeStep]
    norm_num

end GraphTransport.PeriodicSegment
