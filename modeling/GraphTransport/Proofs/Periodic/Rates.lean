import Mathlib.Tactic.FieldSimp
import GraphTransport.Proofs.Evolution.Rates
import GraphTransport.Proofs.Periodic.Operator
import GraphTransport.Proofs.Scheme.Fluxes

namespace GraphTransport

variable {F : Type} [Field F] [LinearOrder F] [IsStrictOrderedRing F]

/-- The rates `z` of the low-order scheme and the rates `y` of the high-order scheme in the state
`u` of a cycle of `n` cells of size `h`. -/
structure AreDifferences (n : Nat) (h v : F) (u z y : Nat → F) : Prop where
  upwind_of_nonneg : 0 ≤ v → ∀ i < n, z i = -v * (u i - u (previousNode n i)) / h
  upwind_of_nonpos : v ≤ 0 → ∀ i < n, z i = -v * (u (nextNode n i) - u i) / h
  central : ∀ i < n, y i = -v * (u (nextNode n i) - u (previousNode n i)) / (2 * h) +
    (2 * z i - z (previousNode n i) - z (nextNode n i)) / 6

namespace PeriodicSegment.IsAssembled

variable {s : PeriodicSegment F} {velocity : F} {g : GraphOperator F} {i : Nat}
  (h : s.IsAssembled velocity g) (hn : 3 ≤ s.numCells) (u : Nat → F)

include h hn

theorem lowOrderAt_eq (hi : i < s.numCells) : g.lowOrderAt u i =
    ((|velocity| / 2 - velocity / 2) * (u (nextNode s.numCells i) - u i) +
      (|velocity| / 2 + velocity / 2) * (u (previousNode s.numCells i) - u i)) / s.cellSize := by
  refine (Scheme.lowOrder.rateAt_eq_sum g u u i).trans ?_
  rw [h.sum_edges hn hi fun j e ↦ e.lowOrderFlux (u i) (u j) +
    Scheme.lowOrder.correction e (g.endAt u u i) (g.endAt u u j), h.lumpedAt_eq hi]
  simp only [Edge.lowOrderFlux, Scheme.correction, PeriodicSegment.viscosity_nextEdge,
    PeriodicSegment.viscosity_previousEdge, add_zero]
  rw [nextEdge, previousEdge, sub_neg_eq_add]

theorem highOrderAt_eq (hsize : s.cellSize ≠ 0) (z : Nat → F) (hi : i < s.numCells) :
    g.highOrderAt u z i = -velocity *
      (u (nextNode s.numCells i) - u (previousNode s.numCells i)) / (2 * s.cellSize) +
      (2 * z i - z (previousNode s.numCells i) - z (nextNode s.numCells i)) / 6 := by
  refine (Scheme.highOrder.rateAt_eq_sum g u z i).trans ?_
  rw [h.sum_edges hn hi fun j e ↦ e.lowOrderFlux (u i) (u j) +
    Scheme.highOrder.correction e (g.endAt u z i) (g.endAt u z j), h.lumpedAt_eq hi]
  simp only [Edge.lowOrderFlux, Scheme.correction, Edge.targetFlux, GraphOperator.endAt,
    PeriodicSegment.nextEdge, PeriodicSegment.previousEdge]
  field_simp
  ring

theorem areDifferences (hsize : s.cellSize ≠ 0) {z y : Nat → F}
    (hz : ∀ i < s.numCells, z i = Scheme.lowOrder.rate g u i)
    (hy : ∀ i < s.numCells, y i = Scheme.highOrder.rate g u i) :
    AreDifferences s.numCells s.cellSize velocity u z y where
  upwind_of_nonneg hv i hi := by
    rw [hz i hi]
    refine (h.lowOrderAt_eq hn u hi).trans ?_
    rw [abs_of_nonneg hv]
    ring
  upwind_of_nonpos hv i hi := by
    rw [hz i hi]
    refine (h.lowOrderAt_eq hn u hi).trans ?_
    rw [abs_of_nonpos hv]
    ring
  central i hi := by
    rw [hy i hi, hz i hi, hz _ (previousNode_lt hi), hz _ (nextNode_lt hi)]
    exact h.highOrderAt_eq hn u hsize (g.lowOrderAt u) hi

end PeriodicSegment.IsAssembled

/-- Around a segment of at least three cells, the rates of every variable of every state under the
two linear schemes are upwind differences and corrected central differences. -/
theorem areDifferences_of_create {numCells : Nat} (hcells : 3 ≤ numCells) {length : F}
    (hlength : 0 < length) (velocity : F) : ∃ s g,
      PeriodicSegment.create numCells length = .ok s ∧ s.advectionOperator velocity = .ok g ∧
      ∀ (sizes : SizeArithmetic) (numVars : Nat), numVars ≠ 0 →
        sizes.mul numVars numCells = .ok (numVars * numCells) →
        ∀ x : Array F, x.size = numVars * numCells → ∃ z y,
          evaluate sizes .lowOrder g numVars x = .ok z ∧
          evaluate sizes .highOrder g numVars x = .ok y ∧
          ∀ var < numVars, AreDifferences numCells (length / numCells) velocity
            (variableAt x numCells var) (variableAt z numCells var)
            (variableAt y numCells var) := by
  let s : PeriodicSegment F := ⟨numCells, length⟩
  have hpositive : 0 < s.numCells := Nat.zero_lt_of_lt hcells
  have hsize : s.cellSize ≠ 0 := (div_pos hlength (Nat.cast_pos.2 hpositive)).ne'
  obtain ⟨g, hg, h⟩ := PeriodicSegment.exists_isAssembled (s := s) hpositive hlength velocity
  have hs : PeriodicSegment.create numCells length = .ok s :=
    PeriodicSegment.create_eq_ok_iff.2 ⟨Nat.le_of_succ_le hcells, hlength, rfl⟩
  refine ⟨s, g, hs, hg, ?_⟩
  intro sizes numVars hvars hmul x hx
  obtain rfl : g.numNodes = numCells := h.numNodes_eq
  obtain ⟨z, hz, -, hlow⟩ := h.accepted.exists_rates .lowOrder hvars hmul hx
  obtain ⟨y, hy, -, hhigh⟩ := h.accepted.exists_rates .highOrder hvars hmul hx
  exact ⟨z, y, hz, hy, fun var hvar ↦ h.areDifferences hcells _ hsize (hlow var hvar)
    (hhigh var hvar)⟩

theorem areDifferences_of_create_four : ∃ s g z y,
    PeriodicSegment.create 4 (1 : ℚ) = .ok s ∧ s.advectionOperator 1 = .ok g ∧
    evaluate .word64 .lowOrder g 1 #[1, 1, 0, 0] = .ok z ∧
    evaluate .word64 .highOrder g 1 #[1, 1, 0, 0] = .ok y ∧
    variableAt z 4 0 0 = -4 ∧ variableAt z 4 0 1 = 0 ∧ variableAt y 4 0 1 = 2 := by
  have hcells : 3 ≤ 4 := by decide
  obtain ⟨s, g, hs, hg, hrates⟩ := areDifferences_of_create hcells (one_pos (α := ℚ)) 1
  obtain ⟨z, y, hz, hy, h⟩ := hrates .word64 1 one_ne_zero rfl #[1, 1, 0, 0] rfl
  have hdifferences := h 0 one_pos
  have hupwind (i : Nat) (hi : i < 4) := hdifferences.upwind_of_nonneg zero_le_one i hi
  have hcentral := hdifferences.central 1 (by decide)
  refine ⟨s, g, z, y, hs, hg, hz, hy, ?_, ?_, ?_⟩
  · rw [hupwind 0 (by decide)]
    decide +kernel
  · rw [hupwind 1 (by decide)]
    decide +kernel
  · rw [hcentral, hupwind 1 (by decide), show previousNode 4 1 = 0 from rfl,
      show nextNode 4 1 = 2 from rfl, hupwind 0 (by decide), hupwind 2 (by decide)]
    decide +kernel

end GraphTransport
