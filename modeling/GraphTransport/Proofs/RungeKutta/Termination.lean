import Mathlib.Algebra.Order.Archimedean.Basic
import GraphTransport.Proofs.RungeKutta.Course
import GraphTransport.Proofs.Scalar.Gaps
import GraphTransport.Proofs.Traversal
import GraphTransport.RungeKutta.Methods
import GraphTransport.Settings.Basic

namespace GraphTransport

/-- The power of two from which on a step of size `dt` does not move the time. -/
def stallTime (dt : ℚ) : ℚ := 2 ^ (53 + Int.clog 2 dt)

theorem spacing_stallTime (dt : ℚ) : spacing 53 (stallTime dt) = 2 * 2 ^ Int.clog 2 dt := by
  rw [stallTime, spacing_two_zpow, ← zpow_one_add₀ two_ne_zero]
  congr 1
  push_cast
  ring

theorem stallTime_pos (dt : ℚ) : 0 < stallTime dt := zpow_pos two_pos _

theorem nearestEven_stallTime (dt : ℚ) : nearestEven 53 (stallTime dt) = stallTime dt :=
  nearestEven_zpow (by decide) _

theorem nearestEven_stallTime_add {dt : ℚ} (hdt : 0 < dt) :
    nearestEven 53 (stallTime dt + dt) = stallTime dt := by
  refine nearestEven_two_zpow_add (by decide) hdt.le ?_
  have hclog : dt ≤ 2 ^ Int.clog 2 dt := Int.self_le_zpow_clog one_lt_two dt
  have hspacing := spacing_stallTime dt
  rw [stallTime] at hspacing
  linarith

theorem spacing_lt_of_lt_stallTime {t dt : ℚ} (ht : 0 < t) (hdt : 0 < dt) (h : t < stallTime dt) :
    spacing 53 t / 2 < dt := by
  have hclog : (2 : ℚ) ^ (Int.clog 2 dt - 1) < dt := Int.zpow_pred_clog_lt_self one_lt_two hdt
  rw [stallTime, ← abs_of_pos ht] at h
  have hlog := (Int.lt_zpow_iff_log_lt one_lt_two (abs_pos.2 ht.ne')).1 h
  have hspacing : spacing 53 t ≤ 2 ^ Int.clog 2 dt :=
    zpow_le_zpow_right₀ one_le_two (by push_cast; omega)
  rw [zpow_sub_one₀ two_ne_zero] at hclog
  linarith

section Times

variable {tFinal dt : Rounded Rounding.binary64} {k : Nat}

theorem val_timeAfter_succ (tFinal dt : Rounded Rounding.binary64) (k : Nat) :
    (timeAfter tFinal dt (k + 1)).val = nearestEven 53 ((timeAfter tFinal dt k).val +
      min dt.val (nearestEven 53 (tFinal.val - (timeAfter tFinal dt k).val))) := by
  have hmin := Rounded.val_min dt (tFinal - timeAfter tFinal dt k)
  exact congrArg (fun size ↦ nearestEven 53 ((timeAfter tFinal dt k).val + size)) hmin

theorem nearestEven_val (a : Rounded Rounding.binary64) : nearestEven 53 a.val = a.val := a.property

theorem tolerance_mem (hdt : 0 < dt.val) :
    0 ≤ (1e-8 * dt).val ∧ (1e-8 * dt).val ≤ 2 ^ (Int.clog 2 dt.val - 1) := by
  have hvalue : (1e-8 * dt).val = nearestEven 53 (nearestEven 53 1e-8 * dt.val) := rfl
  have hnonneg : 0 ≤ nearestEven 53 1e-8 := nearestEven_nonneg (by norm_num)
  have hhalf : nearestEven 53 1e-8 ≤ 2 ^ (-1 : ℤ) :=
    nearestEven_le (by decide) (nearestEven_zpow (by decide) _) (by norm_num)
  have hclog : dt.val ≤ 2 ^ Int.clog 2 dt.val := Int.self_le_zpow_clog one_lt_two _
  rw [hvalue]
  refine ⟨nearestEven_nonneg (mul_nonneg hnonneg hdt.le), ?_⟩
  have hproduct : nearestEven 53 1e-8 * dt.val ≤ 2 ^ (Int.clog 2 dt.val - 1) := by
    rw [sub_eq_neg_add, zpow_add₀ two_ne_zero]
    exact mul_le_mul hhalf hclog hdt.le (zpow_pos two_pos _).le
  exact nearestEven_le (by decide) (nearestEven_zpow (by decide) _) hproduct

theorem goesOn_iff : GoesOn tFinal dt k ↔
    (timeAfter tFinal dt k).val < nearestEven 53 (tFinal.val - (1e-8 * dt).val) :=
  Iff.rfl

theorem timeAfter_lt_of_goesOn (hdt : 0 < dt.val) (h : GoesOn tFinal dt k) :
    (timeAfter tFinal dt k).val < tFinal.val := by
  obtain ⟨htolerance, -⟩ := tolerance_mem hdt
  exact (goesOn_iff.1 h).trans_le
    (nearestEven_le (by decide) (nearestEven_val tFinal) (by linarith))

theorem timeAfter_le_stallTime (hdt : 0 < dt.val) (k : Nat) :
    (timeAfter tFinal dt k).val ≤ stallTime dt.val := by
  induction k with
  | zero => exact (stallTime_pos _).le
  | succ k ih =>
    rw [val_timeAfter_succ, ← nearestEven_stallTime_add hdt]
    exact nearestEven_mono (by decide) (add_le_add ih (min_le_left _ _))

theorem goesOn_of_stallTime_lt (hdt : 0 < dt.val) (h : stallTime dt.val < tFinal.val) (k : Nat) :
    GoesOn tFinal dt k := by
  -- The final time is a spacing away at least, and the tolerance takes less than half of that.
  have hnext := add_spacing_le_of_lt (stallTime_pos _) (nearestEven_stallTime _)
    (nearestEven_val tFinal) h
  obtain ⟨-, htolerance⟩ := tolerance_mem hdt
  have hspacing := spacing_stallTime dt.val
  have hpower : (0 : ℚ) < 2 ^ Int.clog 2 dt.val := zpow_pos two_pos _
  rw [zpow_sub_one₀ two_ne_zero] at htolerance
  have hguard := add_spacing_le_nearestEven (p := 53) (by decide) (stallTime_pos _)
    (nearestEven_stallTime dt.val)
    (show spacing 53 (stallTime dt.val) / 2 < tFinal.val - (1e-8 * dt).val - stallTime dt.val by
      linarith)
  rw [add_sub_cancel] at hguard
  refine goesOn_iff.2 ((timeAfter_le_stallTime hdt k).trans_lt ?_)
  linarith

theorem timeAfter_add_spacing_le (hdt : 0 < dt.val) (h : tFinal.val ≤ stallTime dt.val)
    (hgoes : GoesOn tFinal dt k) (hpos : 0 < (timeAfter tFinal dt k).val) :
    (timeAfter tFinal dt k).val + spacing 53 (timeAfter tFinal dt k).val ≤
      (timeAfter tFinal dt (k + 1)).val := by
  -- A whole step is more than half a spacing, and the last one is a spacing at least.
  have hlt := timeAfter_lt_of_goesOn hdt hgoes
  have hnext := add_spacing_le_of_lt hpos (nearestEven_val _) (nearestEven_val tFinal) hlt
  have hrest : spacing 53 (timeAfter tFinal dt k).val ≤
      nearestEven 53 (tFinal.val - (timeAfter tFinal dt k).val) :=
    le_nearestEven (by decide) (nearestEven_spacing (by decide) _) (by linarith)
  have hfull := spacing_lt_of_lt_stallTime hpos hdt (hlt.trans_le h)
  have hs := spacing_pos 53 (timeAfter tFinal dt k).val
  rw [val_timeAfter_succ]
  refine add_spacing_le_nearestEven (by decide) hpos (nearestEven_val _) (lt_min hfull ?_)
  linarith

theorem timeAfter_one_pos (hdt : 0 < dt.val) (hgoes : GoesOn tFinal dt 0) :
    0 < (timeAfter tFinal dt 1).val := by
  have hzero : (timeAfter tFinal dt 0).val = 0 := rfl
  have htFinal := timeAfter_lt_of_goesOn hdt hgoes
  rw [hzero] at htFinal
  rw [val_timeAfter_succ, hzero, sub_zero, zero_add, nearestEven_val]
  exact nearestEven_pos (by decide) (lt_min hdt htFinal)

theorem add_mul_spacing_le_timeAfter (hdt : 0 < dt.val) (h : tFinal.val ≤ stallTime dt.val)
    (k : Nat) (hgoes : ∀ j ≤ k, GoesOn tFinal dt j) :
    (timeAfter tFinal dt 1).val + k * spacing 53 (timeAfter tFinal dt 1).val ≤
      (timeAfter tFinal dt (k + 1)).val := by
  have hfirst := timeAfter_one_pos hdt (hgoes 0 k.zero_le)
  have hs := spacing_pos 53 (timeAfter tFinal dt 1).val
  -- No later step is shorter than the spacing after the first one, as spacings only grow.
  induction k with
  | zero => rw [Nat.cast_zero, zero_mul, add_zero]
  | succ k ih =>
    have hreached := ih fun j hj ↦ hgoes j (Nat.le_succ_of_le hj)
    have hle : (timeAfter tFinal dt 1).val ≤ (timeAfter tFinal dt (k + 1)).val :=
      (le_add_of_nonneg_right (mul_nonneg k.cast_nonneg hs.le)).trans hreached
    calc (timeAfter tFinal dt 1).val + (k + 1 : Nat) * spacing 53 (timeAfter tFinal dt 1).val
        = (timeAfter tFinal dt 1).val + k * spacing 53 (timeAfter tFinal dt 1).val +
            spacing 53 (timeAfter tFinal dt 1).val := by
          rw [Nat.cast_succ, add_one_mul, add_assoc]
      _ ≤ (timeAfter tFinal dt (k + 1)).val + spacing 53 (timeAfter tFinal dt (k + 1)).val :=
          add_le_add hreached (spacing_mono hfirst hle)
      _ ≤ (timeAfter tFinal dt (k + 2)).val :=
          timeAfter_add_spacing_le hdt h (hgoes (k + 1) le_rfl) (hfirst.trans_le hle)

theorem exists_not_goesOn (hdt : 0 < dt.val) (h : tFinal.val ≤ stallTime dt.val) :
    ∃ k, ¬ GoesOn tFinal dt k := by
  by_contra hnever
  have hgoes (k : Nat) : GoesOn tFinal dt k := not_not.1 (not_exists.1 hnever k)
  have hs := spacing_pos 53 (timeAfter tFinal dt 1).val
  obtain ⟨k, hk⟩ := exists_nat_gt (tFinal.val / spacing 53 (timeAfter tFinal dt 1).val)
  rw [div_lt_iff₀ hs] at hk
  have hfirst := timeAfter_one_pos hdt (hgoes 0)
  have hreached := add_mul_spacing_le_timeAfter hdt h k fun j _ ↦ hgoes j
  have hbefore := timeAfter_lt_of_goesOn hdt (hgoes (k + 1))
  linarith

theorem exists_not_goesOn_iff (hdt : 0 < dt.val) :
    (∃ k, ¬ GoesOn tFinal dt k) ↔ tFinal.val ≤ stallTime dt.val := by
  constructor
  · rintro ⟨k, hend⟩
    exact not_lt.1 fun h ↦ hend (goesOn_of_stallTime_lt hdt h k)
  · exact exists_not_goesOn hdt

end Times

namespace Settings

theorem validate_eq_ok_iff {α : Type} [Scalar α] {s : Settings α} : s.validate = .ok () ↔
    0 < s.dt ∧ 0 ≤ s.tFinal ∧ s.reportInterval ≠ 0 ∧ 2 ≤ s.numCells := by
  simp only [validate, ite_error_eq_ok_iff, not_not, not_lt, ne_eq, and_true]

variable {ε σ : Type} {n : Nat}

/-- With valid settings and rates that never fail, a run in double precision comes to its end if and
only if its final time is not beyond the first power of two at which the time step is at most half
the spacing. -/
theorem integrate_ends_iff {s : Settings (Rounded Rounding.binary64)} (hs : s.validate = .ok ())
    {f : RateFunction ε σ (Rounded Rounding.binary64)} (hf : f.NeverFails n)
    (solver : Solver (Rounded Rounding.binary64)) (x : Vector (Rounded Rounding.binary64) n)
    (memory : σ) : (∃ budget report final,
      solver.integrate budget f recordCalls x s.tFinal s.dt memory [] = (.ok report, final)) ↔
      s.tFinal.val ≤ stallTime s.dt.val := by
  obtain ⟨hdt, -⟩ := validate_eq_ok_iff.1 hs
  rw [Solver.exists_integrate_eq_ok_iff hdt fun k ↦ Solver.course_ok hf k]
  exact exists_not_goesOn_iff hdt

theorem integrate_ends_iff_default : ∃ s : Settings (Rounded Rounding.binary64),
    s = default ∧ s.validate = .ok () ∧ s.tFinal.val ≤ stallTime s.dt.val ∧
    ∃ budget report final, (Solver.ofTableau .heun).integrate budget
      (.linear 1 : RateFunction Empty Unit (Rounded Rounding.binary64)) recordCalls #v[1]
      s.tFinal s.dt () [] = (.ok report, final) := by
  have hvalid : (default : Settings (Rounded Rounding.binary64)).validate = .ok () :=
    validate_eq_ok_iff.2 (by decide +kernel)
  have hstall : stallTime (default : Settings (Rounded Rounding.binary64)).dt.val = 2 ^ 44 := by
    decide +kernel
  have htFinal : (default : Settings (Rounded Rounding.binary64)).tFinal.val ≤
      stallTime (default : Settings (Rounded Rounding.binary64)).dt.val := by
    rw [hstall]
    decide +kernel
  have hlinear : (.linear 1 : RateFunction Empty Unit (Rounded Rounding.binary64)).NeverFails 1 :=
    fun _ _ _ ↦ rfl
  exact ⟨default, rfl, hvalid, htFinal,
    (integrate_ends_iff hvalid hlinear (.ofTableau .heun) #v[1] ()).2 htFinal⟩

def stalling : Settings (Rounded Rounding.binary64) :=
  { (default : Settings (Rounded Rounding.binary64)) with
    tFinal := .of _ 1, dt := .of _ (1 / 2 ^ 60) }

theorem integrate_stalling : stalling.validate = .ok () ∧ stalling.dt.val = 1 / 2 ^ 60 ∧
    stalling.tFinal.val = 1 ∧
    (.of Rounding.binary64 (1 / 2 ^ 7) + stalling.dt : Rounded _).val = 1 / 2 ^ 7 ∧
    ∀ budget, ∃ final, (Solver.ofTableau .forwardEuler).integrate budget
      (.linear 0 : RateFunction Empty Unit (Rounded Rounding.binary64)) recordCalls #v[]
      stalling.tFinal stalling.dt () [] = (.error (.broken .stepBudgetSpent), final) := by
  refine ⟨validate_eq_ok_iff.2 (by decide +kernel), by decide +kernel, by decide +kernel,
    by decide +kernel, fun budget ↦ ?_⟩
  have hlinear : (.linear 0 : RateFunction Empty Unit (Rounded Rounding.binary64)).NeverFails 0 :=
    fun _ _ _ ↦ rfl
  have hdt : 0 < stalling.dt := by decide +kernel
  have hstall : stallTime stalling.dt.val < stalling.tFinal.val := by decide +kernel
  rw [Solver.integrate_of_course_ok hdt budget fun k ↦ Solver.course_ok hlinear k, outcomeAfter,
    if_pos (goesOn_of_stallTime_lt hdt hstall _)]
  exact ⟨_, rfl⟩

end Settings

end GraphTransport
