import Mathlib.Algebra.CharZero.Infinite
import Mathlib.Algebra.Polynomial.AlgebraMap
import Mathlib.Algebra.Polynomial.Roots
import Mathlib.LinearAlgebra.Matrix.ToLin
import GraphTransport.Proofs.RungeKutta.Course
import GraphTransport.Proofs.RungeKutta.StrongStability

namespace GraphTransport

open Polynomial
open scoped Matrix Nat

section Polynomials

variable {F : Type} [Field F]

noncomputable def expTaylor (F : Type) [Field F] (p : Nat) : F[X] :=
  ∑ k ∈ Finset.range (p + 1), C (k ! : F)⁻¹ * X ^ k

theorem eval_expTaylor (p : Nat) (z : F) :
    (expTaylor F p).eval z = ∑ k ∈ Finset.range (p + 1), (k ! : F)⁻¹ * z ^ k := by
  rw [expTaylor, eval_finsetSum]
  apply Finset.sum_congr rfl
  intro k _
  rw [eval_mul, eval_C, eval_pow, eval_X]

theorem aeval_expTaylor {n : Nat} (B : Matrix (Fin n) (Fin n) F) (p : Nat) :
    aeval B (expTaylor F p) = ∑ k ∈ Finset.range (p + 1), (k ! : F)⁻¹ • B ^ k := by
  rw [expTaylor, map_sum]
  apply Finset.sum_congr rfl
  intro k _
  rw [map_mul, map_pow, aeval_X, aeval_C, Algebra.smul_def]

namespace Tableau

variable (T : Tableau F)

noncomputable def stagePolynomial (s : Fin T.numStages) : F[X] :=
  1 + ∑ l : Fin s.val, C ((T.coefficients.get s).get (l.castLE s.isLt.le)) *
    (X * stagePolynomial (l.castLE s.isLt.le))
termination_by s.val
decreasing_by exact l.isLt

/-- The polynomial of `dt A` that takes the state before a step to the state after it. -/
noncomputable def stabilityPolynomial : F[X] :=
  1 + ∑ s, C (T.weights.get s) * (X * T.stagePolynomial s)

theorem stagePolynomial_eq (s : Fin T.numStages) : T.stagePolynomial s =
    1 + ∑ l : Fin s.val, C ((T.coefficients.get s).get (l.castLE s.isLt.le)) *
      (X * T.stagePolynomial (l.castLE s.isLt.le)) := by
  rw [stagePolynomial]

theorem stagePolynomial_zero (h : 0 < T.numStages) : T.stagePolynomial ⟨0, h⟩ = 1 := by
  rw [stagePolynomial_eq, Fin.sum_univ_zero, add_zero]

end Tableau

end Polynomials

section Steps

variable {F : Type} [Field F] [LinearOrder F] {n : Nat}

def matrixRates (A : Matrix (Fin n) (Fin n) F) (u : Vector F n) : Vector F n :=
  Vector.ofFn (A *ᵥ u.get)

/-- The state `y` is the polynomial `P` of the matrix `B` applied to `x`. -/
def IsImage (B : Matrix (Fin n) (Fin n) F) (x : Vector F n) (P : F[X]) (y : Vector F n) : Prop :=
  y.get = aeval B P *ᵥ x.get

variable {A B : Matrix (Fin n) (Fin n) F} {dt : F} {x y : Vector F n} {P : F[X]}

theorem isImage_one (B : Matrix (Fin n) (Fin n) F) (x : Vector F n) : IsImage B x 1 x := by
  rw [IsImage, map_one, Matrix.one_mulVec]

theorem IsImage.addSlope {z : Vector F n} {Q : F[X]} (hy : IsImage (dt • A) x P y)
    (hz : IsImage (dt • A) x Q z) (a : F) :
    IsImage (dt • A) x (P + C a * (X * Q)) (addSlope dt a (matrixRates A z) y) := by
  funext i
  have hrates : (matrixRates A z)[i] = (A *ᵥ z.get) i := Vector.getElem_ofFn i.isLt
  have hsum : (GraphTransport.addSlope dt a (matrixRates A z) y).get i =
      y.get i + dt * a * (A *ᵥ z.get) i := by
    rw [← hrates]
    exact getElem_addSlope dt a _ y i.isLt
  have himage : aeval (dt • A) (P + C a * (X * Q)) *ᵥ x.get =
      y.get + a • dt • A *ᵥ z.get := by
    rw [hy, hz, map_add, map_mul, map_mul, aeval_C, aeval_X, Matrix.add_mulVec,
      ← Matrix.mulVec_mulVec, ← Matrix.mulVec_mulVec, Algebra.algebraMap_eq_smul_one,
      Matrix.smul_mulVec, Matrix.one_mulVec, Matrix.smul_mulVec]
  rw [hsum, himage, Pi.add_apply, Pi.smul_apply, Pi.smul_apply, smul_eq_mul, smul_eq_mul]
  ring

theorem IsImage.fold_addSlope {k : Nat} (a : Fin k → F) {z : Fin k → Vector F n} {Q : Fin k → F[X]}
    (hy : IsImage (dt • A) x P y) (hz : ∀ l, IsImage (dt • A) x (Q l) (z l)) :
    IsImage (dt • A) x (P + ∑ l, C (a l) * (X * Q l)) (Nat.fold k (fun l hl y ↦
      GraphTransport.addSlope dt (a ⟨l, hl⟩) (matrixRates A (z ⟨l, hl⟩)) y) y) := by
  induction k with
  | zero => simpa using hy
  | succ k ih =>
    rw [Nat.fold_succ, Fin.sum_univ_castSucc, ← add_assoc]
    exact (ih (fun l ↦ a l.castSucc) fun l ↦ hz l.castSucc).addSlope (hz (Fin.last k)) _

namespace Tableau

variable (T : Tableau F) (A : Matrix (Fin n) (Fin n) F) (dt : F) (x : Vector F n)

theorem isImage_stageState (s : Fin T.numStages) : IsImage (dt • A) x (T.stagePolynomial s)
    (T.stageState dt x (T.slopes (matrixRates A) dt x) s) := by
  obtain ⟨s, hs⟩ := s
  induction s using Nat.strong_induction_on with
  | _ s ih =>
    rw [stagePolynomial_eq]
    let stage (l : Fin s) : Fin T.numStages := l.castLE hs.le
    let state (l : Fin s) := T.stageState dt x (T.slopes (matrixRates A) dt x) (stage l)
    have hstate (l : Fin s) :
        IsImage (dt • A) x (T.stagePolynomial (stage l)) (state l) := ih l l.isLt _
    have hslope (l : Fin s) :
        (T.slopes (matrixRates A) dt x).get (stage l) = matrixRates A (state l) := get_slopes _
    have hfold : T.stageState dt x (T.slopes (matrixRates A) dt x) ⟨s, hs⟩ =
        Nat.fold s (fun l hl y ↦ addSlope dt ((T.coefficients.get ⟨s, hs⟩).get (stage ⟨l, hl⟩))
          ((T.slopes (matrixRates A) dt x).get (stage ⟨l, hl⟩)) y) x := rfl
    simp only [hslope] at hfold
    rw [hfold]
    exact (isImage_one _ _).fold_addSlope _ hstate

theorem get_stepMap_matrixRates : (T.stepMap (matrixRates A) dt x).get =
    aeval (dt • A) T.stabilityPolynomial *ᵥ x.get := by
  have hfold : T.stepMap (matrixRates A) dt x = Nat.fold T.numStages (fun s hs y ↦
      addSlope dt (T.weights.get ⟨s, hs⟩) ((T.slopes (matrixRates A) dt x).get ⟨s, hs⟩) y) x := rfl
  simp only [get_slopes] at hfold
  rw [hfold]
  exact (isImage_one _ _).fold_addSlope _ (T.isImage_stageState A dt x)

end Tableau

end Steps

section Methods

variable {F : Type} [Field F] [LinearOrder F] [IsStrictOrderedRing F]

def OdeMethod.taylorDegree? : OdeMethod → Option Nat
  | forwardEuler => some 1
  | heun => some 2
  | sspRk3 => some 3
  | rk4 => some 4
  | rk6 => none

namespace Tableau

theorem stabilityPolynomial_forwardEuler :
    (forwardEuler : Tableau F).stabilityPolynomial = expTaylor F 1 := by
  let P : Fin 1 → F[X] := (forwardEuler : Tableau F).stagePolynomial
  have hfirst : P 0 = 1 := stagePolynomial_zero _ Nat.one_pos
  have hstep : (forwardEuler : Tableau F).stabilityPolynomial = 1 + C 1 * (X * P 0) :=
    congrArg (1 + ·) (Fin.sum_univ_one _)
  rw [hstep, hfirst]
  refine Polynomial.funext fun z ↦ ?_
  simp only [eval_add, eval_mul, eval_one, eval_C, eval_X, eval_expTaylor, Finset.sum_range_succ]
  norm_num

theorem stabilityPolynomial_heun :
    (heun : Tableau F).stabilityPolynomial = expTaylor F 2 := by
  let P : Fin 2 → F[X] := (heun : Tableau F).stagePolynomial
  have hfirst : P 0 = 1 := stagePolynomial_zero _ Nat.two_pos
  have hsecond : P 1 = 1 + C 1 * (X * P 0) :=
    (stagePolynomial_eq _ _).trans (congrArg (1 + ·) (Fin.sum_univ_one _))
  have hstep : (heun : Tableau F).stabilityPolynomial =
      1 + (C 0.5 * (X * P 0) + C 0.5 * (X * P 1)) :=
    congrArg (1 + ·) (Fin.sum_univ_two _)
  rw [hstep, hsecond, hfirst]
  refine Polynomial.funext fun z ↦ ?_
  simp only [eval_add, eval_mul, eval_one, eval_C, eval_X, eval_expTaylor, Finset.sum_range_succ]
  norm_num
  ring

theorem stabilityPolynomial_sspRk3 :
    (sspRk3 : Tableau F).stabilityPolynomial = expTaylor F 3 := by
  let P : Fin 3 → F[X] := (sspRk3 : Tableau F).stagePolynomial
  have hfirst : P 0 = 1 := stagePolynomial_zero _ (Nat.succ_pos 2)
  have hsecond : P 1 = 1 + C 1 * (X * P 0) :=
    (stagePolynomial_eq _ _).trans (congrArg (1 + ·) (Fin.sum_univ_one _))
  have hthird : P 2 = 1 + (C 0.25 * (X * P 0) + C 0.25 * (X * P 1)) :=
    (stagePolynomial_eq _ _).trans (congrArg (1 + ·) (Fin.sum_univ_two _))
  have hstep : (sspRk3 : Tableau F).stabilityPolynomial = 1 + (C (1.0 / 6.0) * (X * P 0) +
      C (1.0 / 6.0) * (X * P 1) + C (2.0 / 3.0) * (X * P 2)) :=
    congrArg (1 + ·) (Fin.sum_univ_three _)
  rw [hstep, hthird, hsecond, hfirst]
  refine Polynomial.funext fun z ↦ ?_
  simp only [eval_add, eval_mul, eval_one, eval_C, eval_X, eval_expTaylor, Finset.sum_range_succ]
  norm_num [Nat.factorial_succ]
  ring

theorem stabilityPolynomial_classicRk4 :
    (classicRk4 : Tableau F).stabilityPolynomial = expTaylor F 4 := by
  let P : Fin 4 → F[X] := (classicRk4 : Tableau F).stagePolynomial
  have hfirst : P 0 = 1 := stagePolynomial_zero _ (Nat.succ_pos 3)
  have hsecond : P 1 = 1 + C 0.5 * (X * P 0) :=
    (stagePolynomial_eq _ _).trans (congrArg (1 + ·) (Fin.sum_univ_one _))
  have hthird : P 2 = 1 + (C 0 * (X * P 0) + C 0.5 * (X * P 1)) :=
    (stagePolynomial_eq _ _).trans (congrArg (1 + ·) (Fin.sum_univ_two _))
  have hfourth : P 3 = 1 + (C 0 * (X * P 0) + C 0 * (X * P 1) + C 1 * (X * P 2)) :=
    (stagePolynomial_eq _ _).trans (congrArg (1 + ·) (Fin.sum_univ_three _))
  have hstep : (classicRk4 : Tableau F).stabilityPolynomial = 1 + (C (1.0 / 6.0) * (X * P 0) +
      C (1.0 / 3.0) * (X * P 1) + C (1.0 / 3.0) * (X * P 2) + C (1.0 / 6.0) * (X * P 3)) :=
    congrArg (1 + ·) (Fin.sum_univ_four _)
  rw [hstep, hfourth, hthird, hsecond, hfirst]
  refine Polynomial.funext fun z ↦ ?_
  simp only [eval_add, eval_mul, eval_one, eval_C, eval_X, eval_expTaylor, Finset.sum_range_succ]
  norm_num [Nat.factorial_succ]
  ring

end Tableau

theorem OdeMethod.stabilityPolynomial_eq {method : OdeMethod} {p : Nat}
    (hp : method.taylorDegree? = some p) :
    (method.tableau : Tableau F).stabilityPolynomial = expTaylor F p := by
  cases method <;> cases hp
  · exact Tableau.stabilityPolynomial_forwardEuler
  · exact Tableau.stabilityPolynomial_heun
  · exact Tableau.stabilityPolynomial_sspRk3
  · exact Tableau.stabilityPolynomial_classicRk4

end Methods

section WholeSteps

variable {F : Type} [Field F] [LinearOrder F] [IsStrictOrderedRing F] {dt : F} {k m : Nat}

theorem succ_mul_le (hdt : 0 < dt) (hk : k < m) : (k : F) * dt + dt ≤ m * dt := by
  have hsucc : (k : F) + 1 ≤ m := by exact_mod_cast hk
  calc (k : F) * dt + dt = (k + 1) * dt := (add_one_mul _ _).symm
    _ ≤ m * dt := mul_le_mul_of_nonneg_right hsucc hdt.le

theorem timeAfter_mul (hdt : 0 < dt) (hk : k ≤ m) : timeAfter (m * dt) dt k = k * dt := by
  induction k with
  | zero => rw [timeAfter, Nat.cast_zero, zero_mul]
  | succ k ih =>
    have hwhole : dt ≤ m * dt - k * dt := le_sub_iff_add_le'.2 (succ_mul_le hdt hk)
    rw [timeAfter, ih (Nat.le_of_succ_le hk), min_eq_left hwhole, Nat.cast_succ, add_one_mul]

theorem stepSize_mul (hdt : 0 < dt) (hk : k < m) : stepSize (m * dt) dt k = dt := by
  rw [stepSize, timeAfter_mul hdt hk.le]
  exact min_eq_left (le_sub_iff_add_le'.2 (succ_mul_le hdt hk))

theorem goesOn_mul (hdt : 0 < dt) (hk : k < m) : GoesOn (m * dt) dt k := by
  have hnext := succ_mul_le hdt hk
  have htolerance : 1e-8 * dt < dt := mul_lt_of_lt_one_left hdt (by norm_num)
  rw [GoesOn, timeAfter_mul hdt hk.le]
  linarith

theorem not_goesOn_mul (hdt : 0 < dt) : ¬ GoesOn (m * dt) dt m := by
  have htolerance : 0 ≤ 1e-8 * dt := mul_nonneg (by norm_num) hdt.le
  rw [GoesOn, timeAfter_mul hdt le_rfl]
  linarith

end WholeSteps

namespace Solver

variable {ε σ F : Type} [Field F] [LinearOrder F] {n : Nat} {solver : Solver F}
  {f : RateFunction ε σ F} {A : Matrix (Fin n) (Fin n) F} {x : Vector F n} {tFinal dt : F}
  {memory : σ}

theorem get_course_matrixRates (hf : f.Computes (matrixRates A)) {k : Nat}
    (hsize : ∀ j < k, stepSize tFinal dt j = dt) :
    (solver.course f x tFinal dt memory k).x.get =
      aeval (dt • A) solver.tableau.stabilityPolynomial ^ k *ᵥ x.get := by
  induction k with
  | zero => rw [pow_zero, Matrix.one_mulVec]; rfl
  | succ k ih =>
    rw [x_course_succ hf, hsize k k.lt_succ_self, Tableau.get_stepMap_matrixRates,
      ih fun j hj ↦ hsize j (Nat.lt_succ_of_lt hj), Matrix.mulVec_mulVec, pow_succ']

variable [IsStrictOrderedRing F]

/-- In exact arithmetic a step of a linear system by forward Euler, Heun's method, the third-order
strong stability preserving method or the classic fourth-order one is the Taylor polynomial of
`exp (dt A)` of degree one to four. A run of whole steps applies a power of it. -/
theorem linearSystem_eq_expTaylor {method : OdeMethod} {p : Nat}
    (hp : method.taylorDegree? = some p) (hsolver : solver.tableau = method.tableau)
    (hf : f.Computes (matrixRates A)) (x : Vector F n) (memory : σ) :
    (∀ t dt, let stepped := solver.step f x t dt memory
      stepped.outcome = .ok () ∧ stepped.t = t + dt ∧
        stepped.x.get = ∑ k ∈ Finset.range (p + 1), (k ! : F)⁻¹ • ((dt • A) ^ k *ᵥ x.get)) ∧
    ∀ dt, 0 < dt → ∀ m budget, m ≤ budget → ∃ final,
      solver.integrate budget f recordCalls x (m * dt) dt memory [] = (.ok ⟨m, m * dt⟩, final) ∧
      final.x.get =
        (∑ k ∈ Finset.range (p + 1), (k ! : F)⁻¹ • (dt • A) ^ k) ^ m *ᵥ x.get := by
  have hpolynomial : solver.tableau.stabilityPolynomial = expTaylor F p := by
    rw [hsolver, OdeMethod.stabilityPolynomial_eq hp]
  constructor
  · intro t dt stepped
    obtain ⟨hok, -, hx, ht⟩ := solver.step_eq hf x t dt memory
    refine ⟨hok, ht, ?_⟩
    rw [hx, Tableau.get_stepMap_matrixRates, hpolynomial, aeval_expTaylor, Matrix.sum_mulVec]
    exact Finset.sum_congr rfl fun k _ ↦ Matrix.smul_mulVec _ _ _
  · intro dt hdt m budget hbudget
    have hrun : solver.integrate budget f recordCalls x (m * dt) dt memory [] = _ :=
      integrate_of_finished hdt hbudget (fun _ hj ↦ goesOn_mul hdt hj) (not_goesOn_mul hdt)
        (course_ok hf.neverFails m)
    rw [timeAfter_mul hdt le_rfl] at hrun
    refine ⟨_, hrun, ?_⟩
    rw [← aeval_expTaylor, ← hpolynomial]
    exact get_course_matrixRates hf fun j hj ↦ stepSize_mul hdt hj

theorem linearSystem_eq_expTaylor_exchange :
    ∃ final, (ofTableau .classicRk4).integrate 2
        (.ofTotal fun x ↦ x.reverse : RateFunction Empty Unit ℚ) recordCalls #v[1, 0] 2 1 () [] =
        (.ok ⟨2, 2⟩, final) ∧
      final.x.get = ![2153 / 576, 259 / 72] := by
  let f : RateFunction Empty Unit ℚ := .ofTotal fun x ↦ x.reverse
  have hf : f.Computes (matrixRates !![0, 1; 1, 0]) := by
    intro x y memory
    refine ⟨rfl, Vector.ext fun i hi ↦ ?_⟩
    obtain rfl | rfl : i = 0 ∨ i = 1 := by omega
    all_goals simp [f, RateFunction.ofTotal, matrixRates, dotProduct]
    all_goals rfl
  have hmethod : OdeMethod.rk4.taylorDegree? = some 4 := rfl
  have hsolver : (ofTableau .classicRk4 : Solver ℚ).tableau = OdeMethod.rk4.tableau := rfl
  obtain ⟨-, hruns⟩ := linearSystem_eq_expTaylor hmethod hsolver hf #v[1, 0] ()
  obtain ⟨final, hrun, hx⟩ := hruns 1 one_pos 2 2 le_rfl
  rw [Nat.cast_ofNat, mul_one] at hrun
  exact ⟨final, hrun, hx.trans (by decide +kernel)⟩

end Solver

end GraphTransport
