import Mathlib.Algebra.BigOperators.Ring.Finset
import Mathlib.Tactic.Linarith
import GraphTransport.Proofs.Evolution.TotalMass
import GraphTransport.Proofs.Graph.Dense
import GraphTransport.Proofs.Graph.TimeStep
import GraphTransport.Proofs.Scheme.Fluxes

namespace GraphTransport

variable {F : Type} [Field F] [LinearOrder F] [IsStrictOrderedRing F]

theorem sum_sum_eq_zero_of_antisymm {n : Nat} {f : Nat → Nat → F}
    (h : ∀ i j, f j i = -f i j) :
    ∑ i ∈ Finset.range n, ∑ j ∈ Finset.range n, f i j = 0 := by
  have hneg : ∑ i ∈ Finset.range n, ∑ j ∈ Finset.range n, f i j =
      -∑ i ∈ Finset.range n, ∑ j ∈ Finset.range n, f i j := by
    refine Finset.sum_comm.trans ?_
    rw [← Finset.sum_neg_distrib]
    refine Finset.sum_congr rfl fun j _ ↦ ?_
    rw [← Finset.sum_neg_distrib]
    exact Finset.sum_congr rfl fun i _ ↦ h j i
  linarith

namespace GraphOperator

variable {g : GraphOperator F}

/-- What an edge from `i` to `j` carries besides advection. -/
def exchange (g : GraphOperator F) (scheme : Scheme) (u z : Nat → F) (i j : Nat) : F :=
  (g.edge? i j).elim 0 fun e ↦
    e.viscosity * (u j - u i) + scheme.correction e (g.endAt u z i) (g.endAt u z j)

theorem Accepted.exchange_antisymm (hg : g.Accepted) (scheme : Scheme) (u z : Nat → F)
    (i j : Nat) : g.exchange scheme u z j i = -g.exchange scheme u z i j := by
  rw [exchange, exchange, hg.edge?_comm i j]
  cases h : g.edge? i j with
  | none => exact neg_zero.symm
  | some e =>
    simp only [Option.map_some, Option.elim_some]
    rw [hg.correction_mirror scheme h u z, e.mirror_viscosity]
    ring

theorem Accepted.massOf_rateAt (hg : g.Accepted) (scheme : Scheme) (u z : Nat → F) :
    g.massOf (scheme.rateAt g u z) = ∑ j ∈ Finset.range g.numNodes,
      u j * (g.advection.offDiagonalRowSum j - g.advection.offDiagonalColumnSum j) := by
  have hrow (i : Nat) (hi : i ∈ Finset.range g.numNodes) :
      g.lumpedAt i * scheme.rateAt g u z i = ∑ j ∈ Finset.range g.numNodes,
        (u i * g.coupling i j - u j * g.coupling i j + g.exchange scheme u z i j) := by
    have hmass : 0 < g.lumpedAt i := hg.lumped_getD_pos (Finset.mem_range.1 hi)
    rw [Scheme.rateAt_eq_sum, mul_div_cancel₀ _ hmass.ne']
    refine Finset.sum_congr rfl fun j _ ↦ ?_
    rw [coupling, exchange]
    cases g.edge? i j with
    | none => simp
    | some e =>
      simp only [Option.elim_some, Edge.lowOrderFlux]
      ring
  calc g.massOf (scheme.rateAt g u z)
      = ∑ i ∈ Finset.range g.numNodes, ∑ j ∈ Finset.range g.numNodes,
          (u i * g.coupling i j - u j * g.coupling i j + g.exchange scheme u z i j) :=
        Finset.sum_congr rfl hrow
    _ = ∑ i ∈ Finset.range g.numNodes, ∑ j ∈ Finset.range g.numNodes, u i * g.coupling i j -
          ∑ i ∈ Finset.range g.numNodes, ∑ j ∈ Finset.range g.numNodes, u j * g.coupling i j := by
        -- What is not advection is taken from one end of an edge and given to the other.
        simp only [Finset.sum_add_distrib, Finset.sum_sub_distrib]
        rw [sum_sum_eq_zero_of_antisymm (hg.exchange_antisymm scheme u z), add_zero]
    _ = ∑ j ∈ Finset.range g.numNodes,
          u j * (g.advection.offDiagonalRowSum j - g.advection.offDiagonalColumnSum j) := by
        conv_lhs => enter [2]; rw [Finset.sum_comm]
        simp only [← Finset.mul_sum, hg.sum_coupling_row, hg.sum_coupling_column, mul_sub,
          Finset.sum_sub_distrib]

theorem Accepted.totalMass_rates (hg : g.Accepted) {sizes : SizeArithmetic}
    (hsizes : sizes.Fits 1 g.numNodes) (scheme : Scheme) {x : Array F}
    (hx : x.size = g.numNodes) : ∃ y, evaluate sizes scheme g 1 x = .ok y ∧
      g.totalMass sizes y 1 = .ok #[∑ j ∈ Finset.range g.numNodes, valueAt x j *
        (g.advection.offDiagonalRowSum j - g.advection.offDiagonalColumnSum j)] := by
  have hx' : x.size = 1 * g.numNodes := hx.trans (Nat.one_mul _).symm
  obtain ⟨y, hy, hsize, hrates⟩ := hg.exists_rates scheme Nat.one_ne_zero hsizes.mul_eq hx'
  refine ⟨y, hy, ?_⟩
  have hmass : g.massOf (variableAt y g.numNodes 0) = _ :=
    (massOf_congr (hrates 0 Nat.one_pos)).trans (hg.massOf_rateAt scheme _ _)
  rw [totalMass_eq Nat.one_ne_zero hsizes (hsize.trans hx'), List.range_one, List.map_singleton,
    hmass, variableAt_zero]

/-- The mass of the rates of a single variable is the same under every scheme. So a scheme conserves
the mass of every state just if advection takes from each node what it brings there. -/
theorem totalMass_evaluate {mass advection : CsrMatrix F} {lumped : Array F} {g : GraphOperator F}
    (hg : withLumpedMass mass advection lumped = .ok g) {sizes : SizeArithmetic}
    (hsizes : sizes.Fits 1 g.numNodes) (scheme : Scheme) :
    (∀ x : Array F, x.size = g.numNodes → ∃ y, evaluate sizes scheme g 1 x = .ok y ∧
      g.totalMass sizes y 1 = .ok #[∑ j ∈ Finset.range g.numNodes, valueAt x j *
        (g.advection.offDiagonalRowSum j - g.advection.offDiagonalColumnSum j)]) ∧
    ((∀ x : Array F, x.size = g.numNodes → ∃ y, evaluate sizes scheme g 1 x = .ok y ∧
      g.totalMass sizes y 1 = .ok #[0]) ↔
        ∀ j < g.numNodes,
          g.advection.offDiagonalRowSum j = g.advection.offDiagonalColumnSum j) := by
  have hg := accepted_of_withLumpedMass hg
  refine ⟨fun x hx ↦ hg.totalMass_rates hsizes scheme hx, fun h j hj ↦ ?_, fun h x hx ↦ ?_⟩
  · let x : Array F := Array.ofFn fun i : Fin g.numNodes ↦ if i = j then 1 else 0
    have hx : x.size = g.numNodes := Array.size_ofFn
    obtain ⟨y, hy, hzero⟩ := h x hx
    obtain ⟨y', hy', hbalance⟩ := hg.totalMass_rates hsizes scheme hx
    obtain rfl : y = y' := Except.ok.inj (hy.symm.trans hy')
    have hvalue (i : Nat) (hi : i < g.numNodes) : valueAt x i = if i = j then 1 else 0 := by
      rw [valueAt, getD_of_lt (hi.trans_eq hx.symm), Array.getElem_ofFn]
    have hsum : (∑ i ∈ Finset.range g.numNodes, valueAt x i *
        (g.advection.offDiagonalRowSum i - g.advection.offDiagonalColumnSum i)) =
        g.advection.offDiagonalRowSum j - g.advection.offDiagonalColumnSum j := by
      rw [Finset.sum_eq_single_of_mem j (Finset.mem_range.2 hj)]
      · rw [hvalue j hj, if_pos rfl, one_mul]
      · intro i hi hij
        rw [hvalue i (Finset.mem_range.1 hi), if_neg hij, zero_mul]
    rw [hsum, hzero] at hbalance
    refine sub_eq_zero.1 ?_
    simpa using hbalance.symm
  · obtain ⟨y, hy, hbalance⟩ := hg.totalMass_rates hsizes scheme hx
    refine ⟨y, hy, hbalance.trans ?_⟩
    rw [Finset.sum_eq_zero]
    intro j hj
    rw [h j (Finset.mem_range.1 hj), sub_self, mul_zero]

theorem totalMass_evaluate_triangle : ∃ y, evaluate .word64 .mcl triangle 1 #[0, 5, -1] = .ok y ∧
    triangle.totalMass .word64 y 1 = .ok #[-39] := by
  obtain ⟨y, hy, hbalance⟩ := (totalMass_evaluate withLumpedMass_triangle
    (SizeArithmetic.fits_word64 (by decide) (by decide)) .mcl).1 #[0, 5, -1] rfl
  have hsum : (∑ j ∈ Finset.range triangle.numNodes, valueAt #[0, 5, -1] j *
      (triangle.advection.offDiagonalRowSum j - triangle.advection.offDiagonalColumnSum j)) =
      -39 := by
    decide +kernel
  exact ⟨y, hy, by rw [hbalance, hsum]⟩

end GraphOperator

end GraphTransport
