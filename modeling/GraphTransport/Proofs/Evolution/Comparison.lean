import GraphTransport.Proofs.Evolution.Rates
import GraphTransport.Proofs.RungeKutta.Images
import GraphTransport.Proofs.RungeKutta.Run
import GraphTransport.Proofs.RungeKutta.StrongStability
import GraphTransport.Proofs.Scheme.Averaging

namespace GraphTransport

variable {F : Type} [Field F] [LinearOrder F] {k numVars : Nat}

def Below (x y : Vector F k) : Prop := ∀ p (hp : p < k), x[p] ≤ y[p]

theorem getElem_eq_variableAt (x : Vector F k) (n : Nat) {p : Nat} (hp : p < k) :
    x[p] = variableAt x.toArray n (p / n) (p % n) := by
  have hposition : p / n * n + p % n = p := Nat.div_add_mod' p n
  rw [variableAt_toArray x (hposition.trans_lt hp)]
  simp only [hposition]

variable [IsStrictOrderedRing F]

theorem Below.between {a : F} (h₀ : 0 ≤ a) (h₁ : a ≤ 1) {x y x' y' : Vector F k}
    (hx : Below x x') (hy : Below y y') : Below (between a x y) (between a x' y') := by
  intro p hp
  rw [getElem_between, getElem_between]
  exact add_le_add (mul_le_mul_of_nonneg_left (hx p hp) (sub_nonneg.2 h₁))
    (mul_le_mul_of_nonneg_left (hy p hp) h₀)

namespace Evolution

variable {e : Evolution F} {dt : F} {x x' : Vector F k}

theorem below_eulerMap (he : e.graph.Accepted) (hscheme : e.scheme = .lowOrder)
    (hk : k = numVars * e.graph.numNodes) (hdt : 0 ≤ dt)
    (hlimit : ∀ s ∈ e.graph.timeStepLimit, dt ≤ s) (hx : Below x x') :
    Below (eulerMap e.rates dt x) (eulerMap e.rates dt x') := by
  intro p hp
  have hn : 0 < e.graph.numNodes := Nat.pos_of_ne_zero fun hn ↦ by simp [hk, hn] at hp
  have hi : p % e.graph.numNodes < e.graph.numNodes := Nat.mod_lt p hn
  have hvar : p / e.graph.numNodes < numVars := (Nat.div_lt_iff_lt_mul hn).2 (hk ▸ hp)
  have hbelow (j : Nat) (hj : j < e.graph.numNodes) :
      variableAt x.toArray e.graph.numNodes (p / e.graph.numNodes) j ≤
        variableAt x'.toArray e.graph.numNodes (p / e.graph.numNodes) j := by
    have hq : p / e.graph.numNodes * e.graph.numNodes + j < k := hk ▸ block_lt hvar hj
    rw [variableAt_toArray x hq, variableAt_toArray x' hq]
    exact hx _ hq
  have hposition := block_lt hvar hi
  rw [← hk] at hposition
  rw [getElem_eq_variableAt _ e.graph.numNodes hp, getElem_eq_variableAt _ e.graph.numNodes hp,
    e.variableAt_eulerMap dt x hi hposition, e.variableAt_eulerMap dt x' hi hposition, hscheme]
  exact he.lowOrder_euler_mono hdt hi (he.le_timeStepLimit_iff.1 hlimit _ hi) hbelow

theorem below_stepMap (he : e.graph.Accepted) (hscheme : e.scheme = .lowOrder)
    {method : OdeMethod} (hmethod : method.isStrongStabilityPreserving)
    (hk : k = numVars * e.graph.numNodes) (hdt : 0 ≤ dt)
    (hlimit : ∀ s ∈ e.graph.timeStepLimit, dt ≤ s) (hx : Below x x') :
    Below (method.tableau.stepMap e.rates dt x) (method.tableau.stepMap e.rates dt x') :=
  method.stepMap_of_convex_related hmethod (fun _ _ _ _ _ h₀ h₁ ↦ Below.between h₀ h₁)
    (fun _ _ ↦ below_eulerMap he hscheme hk hdt hlimit) hx

end Evolution

/-- Two runs of the low-order scheme with a strong stability preserving method, whose step keeps to
the restriction, take the same steps. If one starts below the other it stays below it. -/
theorem below_of_integrate {mass advection : CsrMatrix F} {lumped : Array F} {g : GraphOperator F}
    (hg : GraphOperator.withLumpedMass mass advection lumped = .ok g) {sizes : SizeArithmetic}
    (hsize : sizes.mul numVars g.numNodes = .ok (numVars * g.numNodes)) {e : Evolution F}
    (he : Evolution.create sizes .lowOrder g numVars = .ok e) (execution : Execution)
    {method : OdeMethod} (hmethod : method.isStrongStabilityPreserving)
    (buffers buffers' : StageBuffers F method.tableau.numStages) :
    ∃ limit, g.stableTimeStep? = .ok limit ∧
      ∀ dt, 0 < dt → (∀ s ∈ limit, dt ≤ s) → ∀ tFinal budget scratch scratch'
        (x x' : Vector F (numVars * g.numNodes)), Below x x' → ∃ outcome final final',
      Solver.integrate budget ⟨method.tableau, buffers⟩
        (.ofEvolution (e.withExecution execution)) recordCalls x tFinal dt scratch [] =
          (outcome, final) ∧
      Solver.integrate budget ⟨method.tableau, buffers'⟩
        (.ofEvolution (e.withExecution execution)) recordCalls x' tFinal dt scratch' [] =
          (outcome, final') ∧
      (outcome = .ok ⟨final.steps, final.t⟩ ∨ outcome = .error (.broken .stepBudgetSpent)) ∧
      final.steps = final'.steps ∧ final.t = final'.t ∧ Below final.x final'.x ∧
      List.Forall₂ (fun call call' ↦ call.1 = call'.1 ∧ call.2.1 = call'.2.1 ∧
        Below call.2.2 call'.2.2) final.seen final'.seen := by
  have hg := GraphOperator.accepted_of_withLumpedMass hg
  refine ⟨g.timeStepLimit, hg.stableTimeStep?_eq, ?_⟩
  intro dt hdt hlimit tFinal budget scratch scratch' x x' hx
  obtain ⟨-, rfl⟩ := Evolution.create_eq_ok_iff.1 he
  let e : Evolution F := ⟨.lowOrder, g, numVars, execution, sizes⟩
  have hcomputes := e.computes_rates hg hsize rfl
  refine Solver.related_integrate hcomputes hcomputes ⟨method.tableau, buffers⟩
    ⟨method.tableau, buffers'⟩ hdt (fun k y y' hgoes hy ↦ ?_) budget hx scratch scratch'
  refine Evolution.below_stepMap (e := e) hg rfl hmethod rfl (cut_step_pos hdt hgoes).le ?_ hy
  exact fun s hs ↦ (min_le_left _ _).trans (hlimit s hs)

theorem below_of_integrate_triangle : ∃ outcome final final',
    Solver.integrate 3 (.ofTableau OdeMethod.heun.tableau)
      (.ofEvolution ⟨.lowOrder, .triangle, 2, .parallel, .word64⟩) recordCalls
      (#v[0, 5, -1, 1, 1, 2] : Vector ℚ (2 * 3)) (1 / 2) (1 / 5) #[] [] = (outcome, final) ∧
    Solver.integrate 3 (.ofTableau OdeMethod.heun.tableau)
      (.ofEvolution ⟨.lowOrder, .triangle, 2, .parallel, .word64⟩) recordCalls
      (#v[1, 5, -1, 1, 4, 3] : Vector ℚ (2 * 3)) (1 / 2) (1 / 5) #[] [] = (outcome, final') ∧
    final.steps = final'.steps ∧ Below final.x final'.x := by
  obtain ⟨limit, hlimit, h⟩ := below_of_integrate GraphOperator.withLumpedMass_triangle
    (show SizeArithmetic.word64.mul 2 3 = .ok (2 * 3) from rfl) rfl .parallel
    (show OdeMethod.heun.isStrongStabilityPreserving from rfl)
    ⟨0, Vector.replicate 2 ⟨#[], rfl⟩⟩ ⟨0, Vector.replicate 2 ⟨#[], rfl⟩⟩
  obtain rfl : some (1 / 5) = limit :=
    Except.ok.inj (GraphOperator.stableTimeStep?_triangle.symm.trans hlimit)
  have hbelow : Below (#v[0, 5, -1, 1, 1, 2] : Vector ℚ (2 * 3)) #v[1, 5, -1, 1, 4, 3] := by
    unfold Below
    decide +kernel
  obtain ⟨outcome, final, final', hrun, hrun', -, hsteps, -, hx, -⟩ := h (1 / 5)
    (by decide +kernel) (by simp) (1 / 2) 3 #[] #[] _ _ hbelow
  exact ⟨outcome, final, final', hrun, hrun', hsteps, hx⟩

end GraphTransport
