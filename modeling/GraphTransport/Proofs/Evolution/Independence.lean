import GraphTransport.Proofs.Evolution.Rates
import GraphTransport.Proofs.Graph.TimeStep
import GraphTransport.Proofs.RungeKutta.Images
import GraphTransport.RungeKutta.Methods

namespace GraphTransport

variable {α : Type} {numVars n : Nat}

def block (x : Vector α (numVars * n)) (var : Fin numVars) : Vector α n :=
  Vector.ofFn fun i ↦ x.get ⟨var * n + i, block_lt var.isLt i.isLt⟩

theorem getElem_block (x : Vector α (numVars * n)) (var : Fin numVars) {i : Nat} (hi : i < n)
    (hp : var * n + i < numVars * n) : (block x var)[i] = x[var * n + i] :=
  Vector.getElem_ofFn hi

variable [Scalar α]

theorem isComponentwise_block (var : Fin numVars) :
    IsComponentwise fun x : Vector α (numVars * n) ↦ block x var := by
  intro c k y
  refine Vector.ext fun i hi ↦ ?_
  have hp := block_lt var.isLt hi
  simp only [getElem_block _ _ hi hp, addScaled, Vector.getElem_zipWith]

theorem valueAt_block (x : Vector α (numVars * n)) (var : Fin numVars) {i : Nat} (hi : i < n) :
    valueAt (block x var).toArray i = variableAt x.toArray n var i := by
  have hp := block_lt var.isLt hi
  rw [variableAt_toArray _ hp, ← getElem_block x var hi hp, valueAt,
    getD_of_lt (hi.trans_eq (block x var).size_toArray.symm), Vector.getElem_toArray]

namespace Evolution

theorem block_rates (e single : Evolution α) (hscheme : e.scheme = single.scheme)
    (hgraph : e.graph = single.graph) (x : Vector α (numVars * e.graph.numNodes))
    (var : Fin numVars) : block (e.rates x) var = single.rates (block x var) := by
  refine Vector.ext fun i hi ↦ ?_
  have hfirst := single.scheme.componentRate_block single.graph (block x var).toArray 0
    (hgraph ▸ hi)
  rw [Nat.zero_mul, Nat.zero_add, variableAt_zero, ← hscheme, ← hgraph] at hfirst
  rw [getElem_block _ _ hi (block_lt var.isLt hi), rates, rates, Vector.getElem_ofFn,
    Vector.getElem_ofFn, e.scheme.componentRate_block _ _ _ hi, ← hscheme, ← hgraph]
  refine Eq.trans ?_ hfirst.symm
  exact e.scheme.rate_congr (fun j hj ↦ (valueAt_block x var hj).symm) hi

end Evolution

/-- In a run with several variables every variable does what it does in the run with this variable
alone: there are as many steps, at the same times, and after each of them and at the end the
variable has the same values. -/
theorem block_integrate {mass advection : CsrMatrix α} {lumped : Array α} {g : GraphOperator α}
    (hg : GraphOperator.withLumpedMass mass advection lumped = .ok g) {sizes : SizeArithmetic}
    (hsize : sizes.mul numVars g.numNodes = .ok (numVars * g.numNodes))
    (hsingle : sizes.mul 1 g.numNodes = .ok g.numNodes) {scheme : Scheme} {e single : Evolution α}
    (he : Evolution.create sizes scheme g numVars = .ok e)
    (he₁ : Evolution.create sizes scheme g 1 = .ok single) (execution : Execution) (T : Tableau α)
    (buffers buffers₁ : StageBuffers α T.numStages) {dt : α} (hdt : 0 < dt) (tFinal : α)
    (budget : Nat) (scratch scratch₁ : Array α) (x : Vector α (numVars * g.numNodes))
    (var : Fin numVars) : ∃ outcome final final₁,
      Solver.integrate budget ⟨T, buffers⟩ (.ofEvolution (e.withExecution execution)) recordCalls x
        tFinal dt scratch [] = (outcome, final) ∧
      Solver.integrate budget ⟨T, buffers₁⟩ (.ofEvolution (single.withExecution execution))
        recordCalls (block x var) tFinal dt scratch₁ [] = (outcome, final₁) ∧
      (outcome = .ok ⟨final.steps, final.t⟩ ∨ outcome = .error (.broken .stepBudgetSpent)) ∧
      final.steps = final₁.steps ∧ final.t = final₁.t ∧ block final.x var = final₁.x ∧
      final.seen.map (fun (step, t, y) ↦ (step, t, block y var)) = final₁.seen := by
  have hg := GraphOperator.accepted_of_withLumpedMass hg
  obtain ⟨-, rfl⟩ := Evolution.create_eq_ok_iff.1 he
  obtain ⟨-, rfl⟩ := Evolution.create_eq_ok_iff.1 he₁
  let e : Evolution α := ⟨scheme, g, numVars, execution, sizes⟩
  let single : Evolution α := ⟨scheme, g, 1, execution, sizes⟩
  have hone : 1 * g.numNodes = g.numNodes := Nat.one_mul _
  have hrates (y : Vector α (numVars * g.numNodes)) :
      block (e.rates y) var = single.rates (block y var) :=
    e.block_rates single rfl rfl y var
  have htableau : Solver.tableau ⟨T, buffers⟩ = Solver.tableau ⟨T, buffers₁⟩ := rfl
  exact Solver.map_integrate (isComponentwise_block var) (e.computes_rates hg hsize rfl)
    (single.computes_rates hg (hone.symm ▸ hsingle) hone.symm) hrates htableau hdt budget x

theorem block_integrate_triangle : ∃ outcome final final₁,
    Solver.integrate 3 (.ofTableau OdeMethod.heun.tableau)
      (.ofEvolution ⟨.mcl, .triangle, 2, .parallel, .word64⟩) recordCalls
      (#v[0, 5, -1, 1, 1, 2] : Vector ℚ (2 * 3)) 20 7 #[] [] = (outcome, final) ∧
    Solver.integrate 3 (.ofTableau OdeMethod.heun.tableau)
      (.ofEvolution ⟨.mcl, .triangle, 1, .parallel, .word64⟩) recordCalls
      (#v[1, 1, 2] : Vector ℚ 3) 20 7 #[] [] = (outcome, final₁) ∧
    final.steps = final₁.steps ∧ block (n := 3) final.x (1 : Fin 2) = final₁.x ∧
    final.seen.map (fun (step, t, y) ↦ (step, t, block (n := 3) y (1 : Fin 2))) = final₁.seen := by
  have htwo : SizeArithmetic.word64.mul 2 3 = .ok (2 * 3) := rfl
  have hone : SizeArithmetic.word64.mul 1 3 = .ok 3 := rfl
  have hseven : (0 : ℚ) < 7 := by norm_num
  obtain ⟨outcome, final, final₁, hrun, hrun₁, -, hsteps, -, hx, hseen⟩ :=
    block_integrate GraphOperator.withLumpedMass_triangle htwo hone
      (show Evolution.create .word64 .mcl _ 2 = .ok _ from rfl)
      (show Evolution.create .word64 .mcl _ 1 = .ok _ from rfl) .parallel OdeMethod.heun.tableau
      ⟨0, Vector.replicate 2 ⟨#[], rfl⟩⟩ ⟨0, Vector.replicate 2 ⟨#[], rfl⟩⟩ hseven 20 3 #[] #[]
      (#v[0, 5, -1, 1, 1, 2] : Vector ℚ (2 * 3)) 1
  have hblock : block (#v[0, 5, -1, 1, 1, 2] : Vector ℚ (2 * 3)) (1 : Fin 2) = #v[1, 1, 2] := by
    decide +kernel
  exact ⟨outcome, final, final₁, hrun, hblock ▸ hrun₁, hsteps, hx, hseen⟩

end GraphTransport
