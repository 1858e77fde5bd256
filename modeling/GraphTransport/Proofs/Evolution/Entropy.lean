import Mathlib.Analysis.Convex.Mul
import GraphTransport.Proofs.Evolution.Conservation
import GraphTransport.Proofs.RungeKutta.StrongStability
import GraphTransport.Proofs.Scheme.Averaging

namespace GraphTransport

variable {F : Type} [Field F] [LinearOrder F] {k numVars var : Nat}

def GraphOperator.entropy (g : GraphOperator F) (η : F → F) (var : Nat) (x : Vector F k) : F :=
  g.massOf fun i ↦ η (variableAt x.toArray g.numNodes var i)

variable [IsStrictOrderedRing F] {η : F → F}

theorem GraphOperator.Accepted.entropy_between_le {g : GraphOperator F} (hg : g.Accepted)
    (hη : ConvexOn F Set.univ η) (hk : k = numVars * g.numNodes) (hvar : var < numVars) {a : F}
    (h₀ : 0 ≤ a) (h₁ : a ≤ 1) (x y : Vector F k) : g.entropy η var (between a x y) ≤
      (1 - a) * g.entropy η var x + a * g.entropy η var y := by
  simp only [entropy, massOf, Finset.mul_sum, ← Finset.sum_add_distrib]
  refine Finset.sum_le_sum fun i hi ↦ ?_
  have hi := Finset.mem_range.1 hi
  have hp : var * g.numNodes + i < k := hk ▸ block_lt hvar hi
  have hmass : 0 < g.lumpedAt i := hg.lumped_getD_pos hi
  have hconvex := hη.2 (Set.mem_univ (variableAt x.toArray g.numNodes var i))
    (Set.mem_univ (variableAt y.toArray g.numNodes var i)) (sub_nonneg.2 h₁) h₀
    (sub_add_cancel 1 a)
  simp only [smul_eq_mul] at hconvex
  rw [variableAt_between a x y hp]
  refine (mul_le_mul_of_nonneg_left hconvex hmass.le).trans_eq ?_
  ring

namespace Evolution

variable {e : Evolution F} {dt : F}

theorem entropy_eulerMap_le (he : e.graph.Accepted) (hscheme : e.scheme = .lowOrder)
    (hbalanced : ∀ j < e.graph.numNodes, e.graph.advection.offDiagonalRowSum j =
      e.graph.advection.offDiagonalColumnSum j)
    (hη : ConvexOn F Set.univ η) (hk : k = numVars * e.graph.numNodes) (hvar : var < numVars)
    (hdt : 0 ≤ dt) (hlimit : ∀ s ∈ e.graph.timeStepLimit, dt ≤ s) (x : Vector F k) :
    e.graph.entropy η var (eulerMap e.rates dt x) ≤ e.graph.entropy η var x := by
  let u : Nat → F := variableAt x.toArray e.graph.numNodes var
  have hstep (i : Nat) (hi : i < e.graph.numNodes) :
      variableAt (eulerMap e.rates dt x).toArray e.graph.numNodes var i =
        u i + dt * e.graph.lowOrderAt u i := by
    rw [e.variableAt_eulerMap dt x hi (hk ▸ block_lt hvar hi), hscheme]
    rfl
  have hbalance : e.graph.massOf (e.graph.lowOrderAt fun j ↦ η (u j)) = 0 := by
    refine (he.massOf_rateAt .lowOrder (fun j ↦ η (u j)) fun j ↦ η (u j)).trans ?_
    refine Finset.sum_eq_zero fun j hj ↦ ?_
    rw [hbalanced j (Finset.mem_range.1 hj), sub_self, mul_zero]
  calc e.graph.entropy η var (eulerMap e.rates dt x)
      = e.graph.massOf fun i ↦ η (u i + dt * e.graph.lowOrderAt u i) :=
        GraphOperator.massOf_congr fun i hi ↦ congrArg η (hstep i hi)
    _ ≤ e.graph.massOf fun i ↦ η (u i) + dt * e.graph.lowOrderAt (fun j ↦ η (u j)) i := by
        refine Finset.sum_le_sum fun i hi ↦ ?_
        have hi := Finset.mem_range.1 hi
        have hmass : 0 < e.graph.lumpedAt i := he.lumped_getD_pos hi
        exact mul_le_mul_of_nonneg_left (he.convex_lowOrder_euler_le hdt hi
          (he.le_timeStepLimit_iff.1 hlimit i hi) hη u) hmass.le
    _ = e.graph.entropy η var x + dt * e.graph.massOf (e.graph.lowOrderAt fun j ↦ η (u j)) := by
        simp only [GraphOperator.entropy, GraphOperator.massOf, mul_add, Finset.sum_add_distrib,
          Finset.mul_sum, mul_left_comm dt, u]
    _ = e.graph.entropy η var x := by rw [hbalance, mul_zero, add_zero]

theorem entropy_stepMap_le (he : e.graph.Accepted) (hscheme : e.scheme = .lowOrder)
    (hbalanced : ∀ j < e.graph.numNodes, e.graph.advection.offDiagonalRowSum j =
      e.graph.advection.offDiagonalColumnSum j)
    {method : OdeMethod} (hmethod : method.isStrongStabilityPreserving)
    (hη : ConvexOn F Set.univ η) (hk : k = numVars * e.graph.numNodes) (hvar : var < numVars)
    (hdt : 0 ≤ dt) (hlimit : ∀ s ∈ e.graph.timeStepLimit, dt ≤ s) (x : Vector F k) :
    e.graph.entropy η var (method.tableau.stepMap e.rates dt x) ≤ e.graph.entropy η var x := by
  refine method.stepMap_of_convex hmethod
    (C := fun y ↦ e.graph.entropy η var y ≤ e.graph.entropy η var x) ?_ ?_ le_rfl
  · intro a y y' h₀ h₁ hy hy'
    have hends : (1 - a) * e.graph.entropy η var x + a * e.graph.entropy η var x =
        e.graph.entropy η var x := by ring
    refine (he.entropy_between_le hη hk hvar h₀ h₁ y y').trans ((add_le_add ?_ ?_).trans_eq hends)
    · exact mul_le_mul_of_nonneg_left hy (sub_nonneg.2 h₁)
    · exact mul_le_mul_of_nonneg_left hy' h₀
  · intro y hy
    exact (entropy_eulerMap_le he hscheme hbalanced hη hk hvar hdt hlimit y).trans hy

end Evolution

/-- If the off-diagonal row and column sums of advection agree at every node, a run of the low-order
scheme with a strong stability preserving method, whose step keeps to the restriction, never
increases the mass of a convex function of a variable: not to the first call of the observer, and
not from one call to the next. -/
theorem entropy_of_integrate {mass advection : CsrMatrix F} {lumped : Array F}
    {g : GraphOperator F} (hg : GraphOperator.withLumpedMass mass advection lumped = .ok g)
    (hbalanced : ∀ j < g.numNodes,
      advection.offDiagonalRowSum j = advection.offDiagonalColumnSum j)
    {sizes : SizeArithmetic} (hsize : sizes.mul numVars g.numNodes = .ok (numVars * g.numNodes))
    {e : Evolution F} (he : Evolution.create sizes .lowOrder g numVars = .ok e)
    (execution : Execution) {method : OdeMethod} (hmethod : method.isStrongStabilityPreserving)
    (buffers : StageBuffers F method.tableau.numStages) (hη : ConvexOn F Set.univ η) :
    ∃ limit, g.stableTimeStep? = .ok limit ∧
      ∀ dt, 0 < dt → (∀ s ∈ limit, dt ≤ s) → ∀ tFinal budget scratch
        (x : Vector F (numVars * g.numNodes)), ∃ outcome final,
      Solver.integrate budget ⟨method.tableau, buffers⟩
        (.ofEvolution (e.withExecution execution)) recordCalls x tFinal dt scratch [] =
          (outcome, final) ∧
      (outcome = .ok ⟨final.steps, final.t⟩ ∨ outcome = .error (.broken .stepBudgetSpent)) ∧
      (x :: final.seen.reverse.map (·.2.2)).IsChain fun y y' ↦
        ∀ var < numVars, g.entropy η var y' ≤ g.entropy η var y := by
  obtain ⟨-, hadvection, -, hg⟩ := GraphOperator.withLumpedMass_eq_ok_iff.1 hg
  refine ⟨g.timeStepLimit, hg.stableTimeStep?_eq, ?_⟩
  intro dt hdt hlimit tFinal budget scratch x
  obtain ⟨-, rfl⟩ := Evolution.create_eq_ok_iff.1 he
  let e : Evolution F := ⟨.lowOrder, g, numVars, execution, sizes⟩
  refine Solver.isChain_integrate (e.computes_rates hg hsize rfl) hdt
    ⟨method.tableau, buffers⟩ (fun t y hunfinished var hvar ↦ ?_) budget x scratch
  refine Evolution.entropy_stepMap_le (e := e) hg rfl (hadvection ▸ hbalanced) hmethod hη rfl hvar
    (cut_step_pos hdt hunfinished).le ?_ y
  exact fun s hs ↦ (min_le_left _ _).trans (hlimit s hs)

theorem entropy_of_integrate_circulation : ∃ g outcome final,
    GraphOperator.withLumpedMass GraphOperator.triangleMass circulation #[1, 2, 3] = .ok g ∧
    Solver.integrate 3 (.ofTableau OdeMethod.sspRk3.tableau)
      (.ofEvolution ⟨.lowOrder, g, 2, .parallel, .word64⟩) recordCalls
      (#v[0, 5, -1, 1, 1, 2] : Vector ℚ (2 * 3)) (1 / 5) (1 / 14) #[] [] = (outcome, final) ∧
    ((#v[0, 5, -1, 1, 1, 2] : Vector ℚ (2 * 3)) :: final.seen.reverse.map (·.2.2)).IsChain
      fun y y' ↦ ∀ var < 2, g.entropy (· ^ 2) var y' ≤ g.entropy (· ^ 2) var y := by
  let g : GraphOperator ℚ :=
    ⟨GraphOperator.triangleMass, circulation, #[1, 2, 3], #[2, 4, 0, 5, 1, 3]⟩
  have hg : GraphOperator.withLumpedMass GraphOperator.triangleMass circulation #[1, 2, 3] =
      .ok g :=
    GraphOperator.withLumpedMass_eq_ok_iff.2 ⟨rfl, rfl, rfl, by decide, by decide, rfl,
      by decide +kernel, by decide +kernel, rfl, by decide +kernel⟩
  have hbalanced : ∀ j < 3, circulation.offDiagonalRowSum j =
      circulation.offDiagonalColumnSum j := by
    decide +kernel
  obtain ⟨limit, hlimit, h⟩ := entropy_of_integrate hg hbalanced
    (show SizeArithmetic.word64.mul 2 3 = .ok (2 * 3) from rfl) rfl .parallel
    (show OdeMethod.sspRk3.isStrongStabilityPreserving from rfl)
    ⟨0, Vector.replicate 3 ⟨#[], rfl⟩⟩ (Even.convexOn_pow even_two)
  have hstable : g.stableTimeStep? = .ok (some (1 / 14)) := by decide +kernel
  obtain rfl : some (1 / 14) = limit := Except.ok.inj (hstable.symm.trans hlimit)
  obtain ⟨outcome, final, hrun, -, hchain⟩ := h (1 / 14) (by decide +kernel) (by simp) (1 / 5) 3
    #[] (#v[0, 5, -1, 1, 1, 2] : Vector ℚ (2 * 3))
  exact ⟨g, outcome, final, hg, hrun, hchain⟩

end GraphTransport
