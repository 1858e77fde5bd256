import Mathlib.Algebra.Order.Pi
import Mathlib.Analysis.Convex.Basic
import GraphTransport.Proofs.RungeKutta.Replies
import GraphTransport.Proofs.RungeKutta.StrongStability

namespace GraphTransport

variable {F : Type} [Field F] [LinearOrder F] {n : Nat}

theorem get_between (a : F) (x y : Vector F n) :
    (between a x y).get = (1 - a) • x.get + a • y.get := by
  funext p
  exact getElem_between a x y p.isLt

theorem get_addSlope_one (dt : F) (k y : Vector F n) :
    (addSlope dt 1 k y).get = y.get + dt • k.get := by
  funext p
  have hentry := getElem_addSlope dt 1 k y p.isLt
  rw [mul_one] at hentry
  exact hentry

variable [IsStrictOrderedRing F] {ε σ : Type}

/-- A strong stability preserving step asks only for rates of states in the set, and ends in it. -/
theorem step_mem_of_convex {method : OdeMethod} (hmethod : method.isStrongStabilityPreserving)
    {f : RateFunction ε σ F} (hf : f.NeverFails n) {C : Set (Fin n → F)} (hC : Convex F C) {h : F}
    (heuler : ∀ (y rates : Vector F n) (memory : σ) (d : F), y.get ∈ C → 0 ≤ d → d ≤ h →
      y.get + d • (f.eval y rates memory).rates.get ∈ C)
    {solver : Solver F} (hsolver : solver.tableau = method.tableau) {x : Vector F n}
    (hx : x.get ∈ C) {dt : F} (hdt : 0 ≤ dt) (hdth : dt ≤ h) (t : F) (memory : σ) :
    (solver.step f x t dt memory).outcome = .ok () ∧
      (∀ reply ∈ solver.replies f x t dt memory,
        ∃ y : Vector F n, reply.state = y.toArray ∧ y.get ∈ C) ∧
      (solver.step f x t dt memory).x.get ∈ C := by
  obtain ⟨T, buffers⟩ := solver
  obtain rfl : T = method.tableau := hsolver
  let solver : Solver F := ⟨method.tableau, buffers⟩
  have hok : (solver.step f x t dt memory).outcome = .ok () := solver.step_ok hf x t dt memory
  obtain ⟨slopes, hanswered, hend⟩ := solver.exists_slopes_of_step f x t dt memory
  obtain ⟨hfinal, hslopes⟩ := hend hok
  have hbetween (a : F) (y z : Vector F n) (ha : 0 ≤ a) (ha' : a ≤ 1) (hy : y.get ∈ C)
      (hz : z.get ∈ C) : (between a y z).get ∈ C := by
    rw [get_between]
    exact hC hy hz (sub_nonneg.2 ha') ha (sub_add_cancel 1 a)
  have halong (s : Fin method.tableau.numStages)
      (hs : (method.tableau.stageState dt x slopes s).get ∈ C) :
      (addSlope dt 1 (slopes.get s) (method.tableau.stageState dt x slopes s)).get ∈ C := by
    obtain ⟨rates, memory', hslope⟩ := hslopes s
    rw [get_addSlope_one, hslope]
    exact heuler _ rates memory' dt hs hdt hdth
  obtain ⟨hstages, hadvance⟩ :=
    OdeMethod.stages_of_convex hmethod (C := fun y ↦ y.get ∈ C) hbetween halong hx
  refine ⟨hok, ?_, hfinal ▸ hadvance⟩
  intro reply hreply
  rw [hanswered.of_ok hok, List.mem_map] at hreply
  obtain ⟨s, -, rfl⟩ := hreply
  exact ⟨_, rfl, hstages s⟩

theorem step_mem_of_convex_decay :
    let f : RateFunction Unit Unit ℚ := .linear (-2)
    let solver : Solver ℚ := .ofTableau OdeMethod.sspRk3.tableau
    let unit : Set (Fin 2 → ℚ) := Set.Icc 0 1
    (solver.step f #v[1, 1 / 3] 0 (1 / 2) ()).outcome = .ok () ∧
      (∀ reply ∈ solver.replies f #v[1, 1 / 3] 0 (1 / 2) (),
        ∃ y : Vector ℚ 2, reply.state = y.toArray ∧ y.get ∈ unit) ∧
      (solver.step f #v[1, 1 / 3] 0 (1 / 2) ()).x.get ∈ unit := by
  intro f solver unit
  have hneverFails : f.NeverFails 2 := fun _ _ _ ↦ rfl
  have hconvex : Convex ℚ unit := convex_Icc 0 1
  have heuler (y rates : Vector ℚ 2) (memory : Unit) (d : ℚ) (hy : y.get ∈ unit) (hd : 0 ≤ d)
      (hd' : d ≤ 1 / 2) : y.get + d • (f.eval y rates memory).rates.get ∈ unit := by
    have hshrink : y.get + d • (f.eval y rates memory).rates.get = (1 - 2 * d) • y.get := by
      funext p
      have hrate : (f.eval y rates memory).rates.get p = -2 * y.get p := Vector.getElem_map _ p.isLt
      simp only [Pi.add_apply, Pi.smul_apply, smul_eq_mul, hrate]
      ring
    have hfactor : 0 ≤ 1 - 2 * d := by linarith
    rw [hshrink]
    constructor
    · exact smul_nonneg hfactor hy.1
    · intro p
      exact mul_le_one₀ (by linarith) (hy.1 p) (hy.2 p)
  have hstart : (#v[1, 1 / 3] : Vector ℚ 2).get ∈ unit := by
    constructor
    · exact Fin.forall_fin_two.2 ⟨by decide +kernel, by decide +kernel⟩
    · exact Fin.forall_fin_two.2 ⟨by decide +kernel, by decide +kernel⟩
  have hmethod : OdeMethod.sspRk3.isStrongStabilityPreserving := rfl
  exact step_mem_of_convex hmethod hneverFails hconvex heuler rfl hstart (by norm_num)
    (by norm_num) 0 ()

end GraphTransport
