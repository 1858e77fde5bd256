import GraphTransport.Proofs.Scheme.LocalBounds
import GraphTransport.Proofs.Evolution.Rates
import GraphTransport.Proofs.RungeKutta.Run
import GraphTransport.Proofs.RungeKutta.StrongStability
import GraphTransport.Simulation.Basic

namespace GraphTransport

variable {F : Type} [Field F] [LinearOrder F] {k n numVars : Nat} {bounds : Nat → Bounds F}

def Confined (bounds : Nat → Bounds F) (numVars n : Nat) (x : Array F) : Prop :=
  ∀ var < numVars, ∀ i < n, (bounds var).Contains (variableAt x n var i)

theorem Confined.between [IsStrictOrderedRing F] (hk : k = numVars * n) {a : F}
    (h₀ : 0 ≤ a) (h₁ : a ≤ 1) {x y : Vector F k} (hx : Confined bounds numVars n x.toArray)
    (hy : Confined bounds numVars n y.toArray) :
    Confined bounds numVars n (between a x y).toArray := by
  intro var hvar i hi
  have hp : var * n + i < k := hk ▸ block_lt hvar hi
  obtain ⟨hxl, hxu⟩ := hx var hvar i hi
  obtain ⟨hyl, hyu⟩ := hy var hvar i hi
  have ha : 0 ≤ 1 - a := sub_nonneg.2 h₁
  have hends (c : F) : c = (1 - a) * c + a * c := by ring
  rw [variableAt_between a x y hp]
  constructor
  · rw [hends (bounds var).lower]
    exact add_le_add (mul_le_mul_of_nonneg_left hxl ha) (mul_le_mul_of_nonneg_left hyl h₀)
  · rw [hends (bounds var).upper]
    exact add_le_add (mul_le_mul_of_nonneg_left hxu ha) (mul_le_mul_of_nonneg_left hyu h₀)

theorem Evolution.confined_eulerMap [IsStrictOrderedRing F] {e : Evolution F}
    (he : e.graph.Accepted) (hscheme : e.scheme.keepsBounds)
    (hk : k = numVars * e.graph.numNodes) {dt : F} (hdt : 0 ≤ dt)
    (hlimit : ∀ s ∈ e.graph.timeStepLimit, dt ≤ s) {x : Vector F k}
    (hx : Confined bounds numVars e.graph.numNodes x.toArray) :
    Confined bounds numVars e.graph.numNodes (eulerMap e.rates dt x).toArray := by
  intro var hvar i hi
  have hp : var * e.graph.numNodes + i < k := hk ▸ block_lt hvar hi
  have hrow := he.le_timeStepLimit_iff.1 hlimit i hi
  obtain ⟨hl, hu⟩ := he.contains_euler_step e.scheme hscheme hdt hi hrow
    (variableAt x.toArray e.graph.numNodes var)
    (e.graph.lowOrderAt (variableAt x.toArray e.graph.numNodes var))
  have hvalue (j : Nat) (hj : j ∈ e.graph.neighbors i) :=
    hx var hvar j (GraphOperator.lt_of_mem_neighbors hj)
  rw [e.variableAt_eulerMap dt x hi hp]
  constructor
  · refine le_trans (GraphOperator.le_lower_boundsAt_iff.2 ?_) hl
    exact ⟨(hx var hvar i hi).1, fun j hj ↦ (hvalue j hj).1⟩
  · refine hu.trans (GraphOperator.upper_boundsAt_le_iff.2 ?_)
    exact ⟨(hx var hvar i hi).2, fun j hj ↦ (hvalue j hj).2⟩

theorem Evolution.confined_stepMap [IsStrictOrderedRing F] {e : Evolution F}
    (he : e.graph.Accepted) (hscheme : e.scheme.keepsBounds) {method : OdeMethod}
    (hmethod : method.isStrongStabilityPreserving) (hk : k = numVars * e.graph.numNodes) {dt : F}
    (hdt : 0 ≤ dt) (hlimit : ∀ s ∈ e.graph.timeStepLimit, dt ≤ s) {x : Vector F k}
    (hx : Confined bounds numVars e.graph.numNodes x.toArray) :
    Confined bounds numVars e.graph.numNodes (method.tableau.stepMap e.rates dt x).toArray := by
  refine method.stepMap_of_convex hmethod
    (C := fun x ↦ Confined bounds numVars e.graph.numNodes x.toArray) ?_ ?_ hx
  · intro a x y h₀ h₁ hx hy
    exact Confined.between hk h₀ h₁ hx hy
  · intro x hx
    exact e.confined_eulerMap he hscheme hk hdt hlimit hx

theorem leastComponent_le {x : Array F} {a : F} (ha : a ∈ x) : leastComponent x ≤ a := by
  rw [← Array.mem_toList_iff] at ha
  rw [leastComponent]
  cases hx : x.toList with
  | nil => simp [hx] at ha
  | cons first rest =>
    have hmin : (fun a b : F ↦ if a ≤ b then a else b) = min := by
      funext a b
      exact (min_def a b).symm
    rw [hx] at ha
    simp only [hmin]
    exact le_foldl_min_iff.1 le_rfl a ha

theorem le_greatestComponent {x : Array F} {a : F} (ha : a ∈ x) : a ≤ greatestComponent x := by
  rw [← Array.mem_toList_iff] at ha
  rw [greatestComponent]
  cases hx : x.toList with
  | nil => simp [hx] at ha
  | cons first rest =>
    have hmax : (fun a b : F ↦ if b ≤ a then a else b) = max := by
      funext a b
      exact (max_def' a b).symm
    rw [hx] at ha
    simp only [hmax]
    exact foldl_max_le_iff.1 le_rfl a ha

def extremes (x : Array F) (n var : Nat) : Bounds F :=
  let block := x.extract (var * n) ((var + 1) * n)
  ⟨leastComponent block, greatestComponent block⟩

theorem confined_extremes (hk : k = numVars * n) (x : Vector F k) :
    Confined (extremes x.toArray n) numVars n x.toArray := by
  intro var hvar i hi
  have hblock : (var + 1) * n ≤ x.toArray.size := by
    rw [x.size_toArray, hk]
    exact Nat.mul_le_mul_right n hvar
  have hmem : variableAt x.toArray n var i ∈ x.toArray.extract (var * n) ((var + 1) * n) := by
    rw [← valueAt_extract _ hi hblock]
    have hin : i < (x.toArray.extract (var * n) ((var + 1) * n)).size :=
      hi.trans_eq (size_block hblock).symm
    rw [valueAt, getD_of_lt hin]
    exact Array.getElem_mem hin
  exact ⟨leastComponent_le hmem, le_greatestComponent hmem⟩

/-- In a run of a strong stability preserving method with a bounds-preserving scheme, whose step
keeps to the restriction, no variable ever leaves the range of its initial values. -/
theorem confined_of_integrate [IsStrictOrderedRing F] {mass advection : CsrMatrix F}
    {lumped : Array F} {g : GraphOperator F}
    (hg : GraphOperator.withLumpedMass mass advection lumped = .ok g)
    {scheme : Scheme} (hscheme : scheme.keepsBounds) {sizes : SizeArithmetic}
    (hsize : sizes.mul numVars g.numNodes = .ok (numVars * g.numNodes)) {e : Evolution F}
    (he : Evolution.create sizes scheme g numVars = .ok e) (execution : Execution)
    {method : OdeMethod} (hmethod : method.isStrongStabilityPreserving)
    (buffers : StageBuffers F method.tableau.numStages) :
    ∃ limit, g.stableTimeStep? = .ok limit ∧
      ∀ dt, 0 < dt → (∀ s ∈ limit, dt ≤ s) → ∀ tFinal budget scratch
        (x : Vector F (numVars * g.numNodes)), ∃ outcome final,
      Solver.integrate budget ⟨method.tableau, buffers⟩
        (.ofEvolution (e.withExecution execution)) recordCalls x tFinal dt scratch [] =
          (outcome, final) ∧
      (outcome = .ok ⟨final.steps, final.t⟩ ∨ outcome = .error (.broken .stepBudgetSpent)) ∧
      Confined (extremes x.toArray g.numNodes) numVars g.numNodes final.x.toArray ∧
      ∀ call ∈ final.seen,
        Confined (extremes x.toArray g.numNodes) numVars g.numNodes call.2.2.toArray := by
  have hg := GraphOperator.accepted_of_withLumpedMass hg
  refine ⟨g.timeStepLimit, hg.stableTimeStep?_eq, ?_⟩
  intro dt hdt hlimit tFinal budget scratch x
  obtain ⟨-, rfl⟩ := Evolution.create_eq_ok_iff.1 he
  let e : Evolution F := ⟨scheme, g, numVars, execution, sizes⟩
  refine Solver.integrate_recordCalls (e.computes_rates hg hsize rfl) hdt _
    (P := fun y ↦ Confined (extremes x.toArray g.numNodes) numVars g.numNodes y.toArray) ?_
    budget scratch (confined_extremes rfl x)
  intro t y hy hunfinished
  refine Evolution.confined_stepMap (e := e) hg hscheme hmethod rfl
    (cut_step_pos hdt hunfinished).le ?_ hy
  exact fun s hs ↦ (min_le_left _ _).trans (hlimit s hs)

theorem confined_of_integrate_triangle : ∃ outcome final,
    Solver.integrate 3 (.ofTableau OdeMethod.sspRk3.tableau)
      (.ofEvolution ⟨.mcl, .triangle, 2, .parallel, .word64⟩) recordCalls
      (#v[0, 5, -1, 1, 1, 2] : Vector ℚ 6) (1 / 2) (1 / 5) #[] [] = (outcome, final) ∧
    ∀ call ∈ final.seen, ∀ i < 3, -1 ≤ variableAt call.2.2.toArray 3 0 i ∧
      variableAt call.2.2.toArray 3 0 i ≤ 5 := by
  obtain ⟨limit, hlimit, h⟩ := confined_of_integrate GraphOperator.withLumpedMass_triangle
    (show Scheme.mcl.keepsBounds from rfl)
    (show SizeArithmetic.word64.mul 2 3 = .ok (2 * 3) from rfl)
    rfl .parallel (show OdeMethod.sspRk3.isStrongStabilityPreserving from rfl)
    ⟨0, Vector.replicate 3 ⟨#[], rfl⟩⟩
  obtain rfl : some (1 / 5) = limit :=
    Except.ok.inj (GraphOperator.stableTimeStep?_triangle.symm.trans hlimit)
  obtain ⟨outcome, final, hrun, -, -, hseen⟩ := h (1 / 5) (by decide +kernel) (by simp) (1 / 2) 3
    #[] (#v[0, 5, -1, 1, 1, 2] : Vector ℚ 6)
  have hlower : (extremes #[(0 : ℚ), 5, -1, 1, 1, 2] 3 0).lower = -1 := by decide +kernel
  have hupper : (extremes #[(0 : ℚ), 5, -1, 1, 1, 2] 3 0).upper = 5 := by decide +kernel
  refine ⟨outcome, final, hrun, fun call hcall i hi ↦ ?_⟩
  have hwithin := hseen call hcall 0 (by decide) i hi
  exact ⟨hlower.symm.trans_le hwithin.1, hwithin.2.trans_eq hupper⟩

end GraphTransport
