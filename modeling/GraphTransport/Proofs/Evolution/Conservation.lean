import GraphTransport.Proofs.RungeKutta.LinearInvariants
import GraphTransport.Proofs.RungeKutta.Run
import GraphTransport.Proofs.Scheme.MassBalance
import GraphTransport.RungeKutta.Methods

namespace GraphTransport

variable {F : Type} [Field F] [LinearOrder F] {k numVars : Nat}

namespace GraphOperator

variable {g : GraphOperator F}

def variableMass (g : GraphOperator F) (var : Nat) (x : Vector F k) : F :=
  g.massOf (variableAt x.toArray g.numNodes var)

theorem isLinear_variableMass (hk : k = numVars * g.numNodes) {var : Nat} (hvar : var < numVars) :
    IsLinear (g.variableMass (k := k) var) := by
  intro c slope x
  have hvalue (i : Nat) (hi : i ∈ Finset.range g.numNodes) :
      g.lumpedAt i * variableAt (addScaled c slope x).toArray g.numNodes var i =
        c * (g.lumpedAt i * variableAt slope.toArray g.numNodes var i) +
          g.lumpedAt i * variableAt x.toArray g.numNodes var i := by
    have hp : var * g.numNodes + i < k := hk ▸ block_lt hvar (Finset.mem_range.1 hi)
    rw [variableAt_toArray _ hp, variableAt_toArray _ hp, variableAt_toArray _ hp, addScaled,
      Vector.getElem_zipWith]
    ring
  unfold variableMass massOf
  rw [Finset.sum_congr rfl hvalue, Finset.sum_add_distrib, Finset.mul_sum]

def variableMasses (g : GraphOperator F) (numVars : Nat) (x : Vector F k) : Array F :=
  ((List.range numVars).map fun var ↦ g.variableMass var x).toArray

end GraphOperator

variable [IsStrictOrderedRing F]

theorem Evolution.variableMass_rates {e : Evolution F} (he : e.graph.Accepted)
    (hbalanced : ∀ j < e.graph.numNodes, e.graph.advection.offDiagonalRowSum j =
      e.graph.advection.offDiagonalColumnSum j)
    (hk : k = numVars * e.graph.numNodes) {var : Nat} (hvar : var < numVars) (x : Vector F k) :
    e.graph.variableMass var (e.rates x) = 0 := by
  have hrates : ∀ i < e.graph.numNodes, variableAt (e.rates x).toArray e.graph.numNodes var i =
      e.scheme.rate e.graph (variableAt x.toArray e.graph.numNodes var) i := by
    intro i hi
    exact variableAt_rates x hi (hk ▸ block_lt hvar hi)
  unfold GraphOperator.variableMass
  rw [GraphOperator.massOf_congr hrates]
  refine (he.massOf_rateAt e.scheme _ _).trans (Finset.sum_eq_zero fun j hj ↦ ?_)
  rw [hbalanced j (Finset.mem_range.1 hj), sub_self, mul_zero]

theorem Evolution.variableMasses_stepMap {e : Evolution F} (he : e.graph.Accepted)
    (hbalanced : ∀ j < e.graph.numNodes, e.graph.advection.offDiagonalRowSum j =
      e.graph.advection.offDiagonalColumnSum j)
    (hk : k = numVars * e.graph.numNodes) (T : Tableau F) (dt : F) (x : Vector F k) :
    e.graph.variableMasses numVars (T.stepMap e.rates dt x) =
      e.graph.variableMasses numVars x := by
  refine congrArg List.toArray (List.map_congr_left fun var hvar ↦ ?_)
  have hvar := List.mem_range.1 hvar
  exact Tableau.stepMap_of_linear (GraphOperator.isLinear_variableMass hk hvar)
    (variableMass_rates he hbalanced hk hvar) T dt x

/-- If the off-diagonal row and column sums of advection agree at every node, a run of any scheme
under any tableau, with steps of any size, has the same total mass of every variable at every call
of the observer and at its end. -/
theorem totalMass_of_integrate {mass advection : CsrMatrix F} {lumped : Array F}
    {g : GraphOperator F} (hg : GraphOperator.withLumpedMass mass advection lumped = .ok g)
    (hbalanced : ∀ j < g.numNodes,
      advection.offDiagonalRowSum j = advection.offDiagonalColumnSum j)
    {sizes : SizeArithmetic} (hsizes : sizes.Fits numVars g.numNodes) {scheme : Scheme}
    {e : Evolution F} (he : Evolution.create sizes scheme g numVars = .ok e)
    (execution : Execution) (solver : Solver F) {dt : F} (hdt : 0 < dt) (tFinal : F)
    (budget : Nat) (scratch : Array F) (x : Vector F (numVars * g.numNodes)) :
    ∃ totals outcome final, g.totalMass sizes x.toArray numVars = .ok totals ∧
      solver.integrate budget (.ofEvolution (e.withExecution execution)) recordCalls x tFinal dt
        scratch [] = (outcome, final) ∧
      (outcome = .ok ⟨final.steps, final.t⟩ ∨ outcome = .error (.broken .stepBudgetSpent)) ∧
      g.totalMass sizes final.x.toArray numVars = .ok totals ∧
      ∀ call ∈ final.seen, g.totalMass sizes call.2.2.toArray numVars = .ok totals := by
  obtain ⟨-, hadvection, -, hg⟩ := GraphOperator.withLumpedMass_eq_ok_iff.1 hg
  obtain ⟨hvars, rfl⟩ := Evolution.create_eq_ok_iff.1 he
  let e : Evolution F := ⟨scheme, g, numVars, execution, sizes⟩
  have htotals (y : Vector F (numVars * g.numNodes)) :
      g.totalMass sizes y.toArray numVars = .ok (g.variableMasses numVars y) :=
    GraphOperator.totalMass_eq hvars hsizes y.size_toArray
  have hstep (t : F) (y : Vector F (numVars * g.numNodes))
      (hy : g.variableMasses numVars y = g.variableMasses numVars x)
      (_ : t < tFinal - 1e-8 * dt) :
      g.variableMasses numVars (solver.tableau.stepMap e.rates (min dt (tFinal - t)) y) =
        g.variableMasses numVars x :=
    (e.variableMasses_stepMap hg (hadvection ▸ hbalanced) rfl _ _ y).trans hy
  obtain ⟨outcome, final, hrun, houtcome, hfinal, hseen⟩ :=
    Solver.integrate_recordCalls (e.computes_rates hg hsizes.mul_eq rfl) hdt solver
      (P := fun y ↦ g.variableMasses numVars y = g.variableMasses numVars x) hstep budget scratch
      rfl
  refine ⟨_, outcome, final, htotals x, hrun, houtcome, ?_, ?_⟩
  · rw [htotals, hfinal]
  · intro call hcall
    rw [htotals, hseen call hcall]

def circulation : CsrMatrix ℚ := ⟨GraphOperator.trianglePattern, #[2, -1, -3, 6, 4, 1], rfl⟩

theorem totalMass_of_integrate_circulation : ∃ g outcome final,
    GraphOperator.withLumpedMass GraphOperator.triangleMass circulation #[1, 2, 3] = .ok g ∧
    Solver.integrate 3 (.ofTableau OdeMethod.rk4.tableau)
      (.ofEvolution ⟨.mcl, g, 2, .parallel, .word64⟩) recordCalls
      (#v[0, 5, -1, 1, 1, 2] : Vector ℚ 6) 20 7 #[] [] = (outcome, final) ∧
    g.totalMass .word64 final.x.toArray 2 = .ok #[7, 9] ∧
    ∀ call ∈ final.seen, g.totalMass .word64 call.2.2.toArray 2 = .ok #[7, 9] := by
  let g : GraphOperator ℚ :=
    ⟨GraphOperator.triangleMass, circulation, #[1, 2, 3], #[2, 4, 0, 5, 1, 3]⟩
  have hg : GraphOperator.withLumpedMass GraphOperator.triangleMass circulation #[1, 2, 3] =
      .ok g :=
    GraphOperator.withLumpedMass_eq_ok_iff.2 ⟨rfl, rfl, rfl, by decide, by decide, rfl,
      by decide +kernel, by decide +kernel, rfl, by decide +kernel⟩
  have hbalanced : ∀ j < 3, circulation.offDiagonalRowSum j =
      circulation.offDiagonalColumnSum j := by
    decide +kernel
  obtain ⟨totals, outcome, final, htotals, hrun, -, hfinal, hseen⟩ :=
    totalMass_of_integrate hg hbalanced
      (show SizeArithmetic.word64.Fits 2 3 from SizeArithmetic.fits_word64 (by decide) (by decide))
      (show Evolution.create .word64 .mcl g 2 = .ok _ from rfl) .parallel
      (.ofTableau OdeMethod.rk4.tableau) (show (0 : ℚ) < 7 by decide +kernel) 20 3 #[]
      (#v[0, 5, -1, 1, 1, 2] : Vector ℚ 6)
  have hmass : g.totalMass .word64 #[0, 5, -1, 1, 1, 2] 2 = .ok #[7, 9] := by decide +kernel
  obtain rfl : #[7, 9] = totals := Except.ok.inj (hmass.symm.trans htotals)
  exact ⟨g, outcome, final, hg, hrun, hfinal, hseen⟩

end GraphTransport
