import Mathlib.Tactic.Linarith
import Mathlib.Tactic.NormNum
import Mathlib.Tactic.Ring
import GraphTransport.Proofs.Scalar.Exact
import GraphTransport.Proofs.RungeKutta.Step
import GraphTransport.RungeKutta.Methods

namespace GraphTransport

section Slopes

variable {α : Type} [Scalar α] {n : Nat}

def addSlope (dt a : α) (k y : Vector α n) : Vector α n :=
  if a == 0 then y else addScaled (dt * a) k y

end Slopes

section Exact

variable {F : Type} [Field F] [LinearOrder F] {n : Nat}

theorem getElem_addSlope (dt a : F) (k y : Vector F n) {p : Nat} (hp : p < n) :
    (addSlope dt a k y)[p] = y[p] + dt * a * k[p] := by
  by_cases ha : a = 0
  · simp [addSlope, ha]
  · have hbeq : ¬ (a == 0) = true := by simpa using ha
    rw [addSlope, if_neg hbeq, addScaled, Vector.getElem_zipWith, add_comm]

def eulerMap (f : Vector F n → Vector F n) (dt : F) (x : Vector F n) : Vector F n :=
  addSlope dt 1 (f x) x

def between (a : F) (x y : Vector F n) : Vector F n :=
  Vector.zipWith (fun x y ↦ (1 - a) * x + a * y) x y

theorem getElem_eulerMap (f : Vector F n → Vector F n) (dt : F) (x : Vector F n) {p : Nat}
    (hp : p < n) : (eulerMap f dt x)[p] = x[p] + dt * (f x)[p] := by
  rw [eulerMap, getElem_addSlope, mul_one]

theorem getElem_between (a : F) (x y : Vector F n) {p : Nat} (hp : p < n) :
    (between a x y)[p] = (1 - a) * x[p] + a * y[p] :=
  Vector.getElem_zipWith hp

variable [IsStrictOrderedRing F]

section Stages

variable (dt : F) (x : Vector F n)

theorem advance_heun_eq_between (slopes : Vector (Vector F n) 2) :
    Tableau.heun.advance dt x slopes = between (1 / 2) x
      (addSlope dt 1 (slopes.get 1) (Tableau.heun.stageState dt x slopes (1 : Fin 2))) := by
  have hstage : Tableau.heun.stageState dt x slopes (1 : Fin 2) = addSlope dt 1 (slopes.get 0) x :=
    rfl
  have hadvance : Tableau.heun.advance dt x slopes =
      addSlope dt 0.5 (slopes.get 1) (addSlope dt 0.5 (slopes.get 0) x) := rfl
  rw [hstage, hadvance]
  apply Vector.ext
  intro p hp
  simp only [getElem_addSlope, getElem_between]
  norm_num
  ring

theorem stageState_sspRk3_eq_between (slopes : Vector (Vector F n) 3) :
    Tableau.sspRk3.stageState dt x slopes (2 : Fin 3) = between (1 / 4) x
      (addSlope dt 1 (slopes.get 1) (Tableau.sspRk3.stageState dt x slopes (1 : Fin 3))) := by
  have hfirst : Tableau.sspRk3.stageState dt x slopes (1 : Fin 3) =
      addSlope dt 1 (slopes.get 0) x := rfl
  have hsecond : Tableau.sspRk3.stageState dt x slopes (2 : Fin 3) =
      addSlope dt 0.25 (slopes.get 1) (addSlope dt 0.25 (slopes.get 0) x) := rfl
  rw [hfirst, hsecond]
  apply Vector.ext
  intro p hp
  simp only [getElem_addSlope, getElem_between]
  norm_num
  ring

theorem advance_sspRk3_eq_between (slopes : Vector (Vector F n) 3) :
    Tableau.sspRk3.advance dt x slopes = between (2 / 3) x
      (addSlope dt 1 (slopes.get 2) (Tableau.sspRk3.stageState dt x slopes (2 : Fin 3))) := by
  have hstage : Tableau.sspRk3.stageState dt x slopes (2 : Fin 3) =
      addSlope dt 0.25 (slopes.get 1) (addSlope dt 0.25 (slopes.get 0) x) := rfl
  have hadvance : Tableau.sspRk3.advance dt x slopes = addSlope dt (2.0 / 3.0) (slopes.get 2)
      (addSlope dt (1.0 / 6.0) (slopes.get 1) (addSlope dt (1.0 / 6.0) (slopes.get 0) x)) := rfl
  rw [hstage, hadvance]
  apply Vector.ext
  intro p hp
  simp only [getElem_addSlope, getElem_between]
  norm_num
  ring

end Stages

variable {method : OdeMethod} {dt : F} {x x' : Vector F n}

/-- Whatever the slopes, the states of the stages and the state after a step are made of explicit
Euler steps along them and of points between two states. -/
theorem OdeMethod.stages_of_convex_related (hmethod : method.isStrongStabilityPreserving)
    {R : Vector F n → Vector F n → Prop}
    (hconvex : ∀ a x y x' y', 0 ≤ a → a ≤ 1 → R x x' → R y y' → R (between a x y) (between a x' y'))
    {slopes slopes' : Vector (Vector F n) method.tableau.numStages}
    (heuler : ∀ s, R (method.tableau.stageState dt x slopes s)
        (method.tableau.stageState dt x' slopes' s) →
      R (addSlope dt 1 (slopes.get s) (method.tableau.stageState dt x slopes s))
        (addSlope dt 1 (slopes'.get s) (method.tableau.stageState dt x' slopes' s)))
    (hx : R x x') :
    (∀ s, R (method.tableau.stageState dt x slopes s)
      (method.tableau.stageState dt x' slopes' s)) ∧
    R (method.tableau.advance dt x slopes) (method.tableau.advance dt x' slopes') := by
  cases method with
  | forwardEuler => exact ⟨Fin.forall_fin_one.2 hx, heuler (0 : Fin 1) hx⟩
  | heun =>
    have hstage := heuler (0 : Fin 2) hx
    have hends := congrArg₂ R (advance_heun_eq_between dt x slopes)
      (advance_heun_eq_between dt x' slopes')
    refine ⟨Fin.forall_fin_two.2 ⟨hx, hstage⟩, hends.mpr ?_⟩
    exact hconvex _ _ _ _ _ (by norm_num) (by norm_num) hx (heuler (1 : Fin 2) hstage)
  | sspRk3 =>
    have hfirst := heuler (0 : Fin 3) hx
    have hstages := congrArg₂ R (stageState_sspRk3_eq_between dt x slopes)
      (stageState_sspRk3_eq_between dt x' slopes')
    have hsecond := hstages.mpr (hconvex _ _ _ _ _ (by norm_num) (by norm_num) hx
      (heuler (1 : Fin 3) hfirst))
    have hends := congrArg₂ R (advance_sspRk3_eq_between dt x slopes)
      (advance_sspRk3_eq_between dt x' slopes')
    refine ⟨Fin.forall_fin_succ.2 ⟨hx, Fin.forall_fin_two.2 ⟨hfirst, hsecond⟩⟩, hends.mpr ?_⟩
    exact hconvex _ _ _ _ _ (by norm_num) (by norm_num) hx (heuler (2 : Fin 3) hsecond)
  | rk4 | rk6 => exact absurd hmethod (by decide)

theorem OdeMethod.stages_of_convex (hmethod : method.isStrongStabilityPreserving)
    {C : Vector F n → Prop}
    (hconvex : ∀ a x y, 0 ≤ a → a ≤ 1 → C x → C y → C (between a x y))
    {slopes : Vector (Vector F n) method.tableau.numStages}
    (heuler : ∀ s, C (method.tableau.stageState dt x slopes s) →
      C (addSlope dt 1 (slopes.get s) (method.tableau.stageState dt x slopes s))) (hx : C x) :
    (∀ s, C (method.tableau.stageState dt x slopes s)) ∧
      C (method.tableau.advance dt x slopes) := by
  obtain ⟨hstages, hadvance⟩ := stages_of_convex_related hmethod (R := fun y z ↦ C y ∧ C z)
    (fun a y z y' z' ha ha' hy hz ↦
      ⟨hconvex a y z ha ha' hy.1 hz.1, hconvex a y' z' ha ha' hy.2 hz.2⟩)
    (fun s hs ↦ ⟨heuler s hs.1, heuler s hs.2⟩) ⟨hx, hx⟩
  exact ⟨fun s ↦ (hstages s).1, hadvance.1⟩

variable {f f' : Vector F n → Vector F n}

theorem OdeMethod.stepMap_of_convex_related (hmethod : method.isStrongStabilityPreserving)
    {R : Vector F n → Vector F n → Prop}
    (hconvex : ∀ a x y x' y', 0 ≤ a → a ≤ 1 → R x x' → R y y' → R (between a x y) (between a x' y'))
    (heuler : ∀ x x', R x x' → R (eulerMap f dt x) (eulerMap f' dt x')) (hx : R x x') :
    R (method.tableau.stepMap f dt x) (method.tableau.stepMap f' dt x') := by
  refine (stages_of_convex_related hmethod hconvex ?_ hx).2
  intro s hs
  rw [Tableau.get_slopes, Tableau.get_slopes]
  exact heuler _ _ hs

theorem OdeMethod.stepMap_of_convex (hmethod : method.isStrongStabilityPreserving)
    {C : Vector F n → Prop}
    (hconvex : ∀ a x y, 0 ≤ a → a ≤ 1 → C x → C y → C (between a x y))
    (heuler : ∀ x, C x → C (eulerMap f dt x)) (hx : C x) :
    C (method.tableau.stepMap f dt x) := by
  refine (stages_of_convex hmethod hconvex ?_ hx).2
  intro s hs
  rw [Tableau.get_slopes]
  exact heuler _ hs

end Exact

end GraphTransport
