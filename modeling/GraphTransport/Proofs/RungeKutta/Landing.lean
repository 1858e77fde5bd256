import GraphTransport.Proofs.RungeKutta.Termination

namespace GraphTransport

section Times

variable {tFinal dt : Rounded Rounding.binary64} {k : Nat}

theorem val_stepSize (tFinal dt : Rounded Rounding.binary64) (k : Nat) :
    (stepSize tFinal dt k).val =
      min dt.val (nearestEven 53 (tFinal.val - (timeAfter tFinal dt k).val)) :=
  Rounded.val_min dt (tFinal - timeAfter tFinal dt k)

theorem stepSize_mem (hdt : 0 < dt.val) (hgoes : GoesOn tFinal dt k) :
    0 < (stepSize tFinal dt k).val ∧ (stepSize tFinal dt k).val ≤ dt.val := by
  have hleft := sub_pos.2 (timeAfter_lt_of_goesOn hdt hgoes)
  rw [val_stepSize]
  exact ⟨lt_min hdt (nearestEven_pos (by decide) hleft), min_le_left _ _⟩

theorem not_goesOn_of_eq (hdt : 0 < dt.val) (h : (timeAfter tFinal dt k).val = tFinal.val) :
    ¬ GoesOn tFinal dt k :=
  fun hgoes ↦ (timeAfter_lt_of_goesOn hdt hgoes).ne h

theorem timeAfter_le_succ (hdt : 0 < dt.val) (hgoes : GoesOn tFinal dt k) :
    (timeAfter tFinal dt k).val ≤ (timeAfter tFinal dt (k + 1)).val := by
  obtain ⟨hpos, -⟩ := stepSize_mem hdt hgoes
  rw [val_timeAfter_succ, ← val_stepSize]
  exact le_nearestEven (by decide) (nearestEven_val _) (by linarith)

theorem timeAfter_mono (hdt : 0 < dt.val) {j : Nat} (hj : j ≤ k)
    (hgoes : ∀ i < k, GoesOn tFinal dt i) :
    (timeAfter tFinal dt j).val ≤ (timeAfter tFinal dt k).val := by
  induction hj with
  | refl => exact le_rfl
  | @step k _ ih =>
    have hbefore := ih fun i hi ↦ hgoes i (Nat.lt_succ_of_lt hi)
    exact hbefore.trans (timeAfter_le_succ hdt (hgoes k k.lt_succ_self))

theorem timeAfter_succ_of_whole (htime : 0 ≤ (timeAfter tFinal dt k).val)
    (hwhole : dt.val < nearestEven 53 (tFinal.val - (timeAfter tFinal dt k).val)) :
    dt.val ≤ (timeAfter tFinal dt (k + 1)).val ∧
      (timeAfter tFinal dt (k + 1)).val ≤ tFinal.val := by
  have hleft : dt.val ≤ tFinal.val - (timeAfter tFinal dt k).val := by
    by_contra hshort
    have hround := nearestEven_le (by decide) (nearestEven_val dt) (not_le.1 hshort).le
    exact (hwhole.trans_le hround).false
  rw [val_timeAfter_succ, min_eq_left hwhole.le]
  exact ⟨le_nearestEven (by decide) (nearestEven_val _) (by linarith),
    nearestEven_le (by decide) (nearestEven_val _) (by linarith)⟩

/-- A cut step from time zero or from a time of at least a step ends at the final time. -/
theorem timeAfter_succ_of_cut (hdt : 0 < dt.val) (hgoes : GoesOn tFinal dt k)
    (hstart : (timeAfter tFinal dt k).val = 0 ∨ dt.val ≤ (timeAfter tFinal dt k).val)
    (hcut : nearestEven 53 (tFinal.val - (timeAfter tFinal dt k).val) ≤ dt.val) :
    (timeAfter tFinal dt (k + 1)).val = tFinal.val := by
  have hexact : nearestEven 53 (tFinal.val - (timeAfter tFinal dt k).val) =
      tFinal.val - (timeAfter tFinal dt k).val := by
    rcases hstart with hzero | hlarge
    · rw [hzero, sub_zero, nearestEven_val]
    · -- The time left is at most a step, so at most the time itself, and there is nothing to round.
      exact nearestEven_sub (by decide) (hdt.trans_le hlarge) (timeAfter_lt_of_goesOn hdt hgoes).le
        (nearestEven_val _) (nearestEven_val _) (hcut.trans hlarge)
  rw [val_timeAfter_succ, min_eq_right hcut, hexact, add_sub_cancel, nearestEven_val]

theorem timeAfter_eq_zero_or_le (hdt : 0 < dt.val) (hgoes : ∀ j ≤ k, GoesOn tFinal dt j) :
    (timeAfter tFinal dt k).val = 0 ∨ dt.val ≤ (timeAfter tFinal dt k).val := by
  induction k with
  | zero => exact Or.inl rfl
  | succ k ih =>
    have hstart := ih fun j hj ↦ hgoes j (Nat.le_succ_of_le hj)
    have htime := timeAfter_mono hdt k.zero_le fun j hj ↦ hgoes j (Nat.le_succ_of_le hj.le)
    rcases le_or_gt (nearestEven 53 (tFinal.val - (timeAfter tFinal dt k).val)) dt.val with
      hcut | hwhole
    · -- After a cut step there is no other.
      have hend := timeAfter_succ_of_cut hdt (hgoes k k.le_succ) hstart hcut
      exact absurd (hgoes (k + 1) le_rfl) (not_goesOn_of_eq hdt hend)
    · exact Or.inr (timeAfter_succ_of_whole htime hwhole).1

theorem timeAfter_succ_eq (hdt : 0 < dt.val) (hgoes : ∀ j ≤ k, GoesOn tFinal dt j)
    (hcut : tFinal - timeAfter tFinal dt k ≤ dt) : timeAfter tFinal dt (k + 1) = tFinal :=
  Subtype.ext (timeAfter_succ_of_cut hdt (hgoes k le_rfl) (timeAfter_eq_zero_or_le hdt hgoes) hcut)

theorem timeAfter_succ_le (hdt : 0 < dt.val) (hgoes : ∀ j ≤ k, GoesOn tFinal dt j) :
    timeAfter tFinal dt (k + 1) ≤ tFinal := by
  rcases le_or_gt (tFinal - timeAfter tFinal dt k) dt with hcut | hwhole
  · exact (timeAfter_succ_eq hdt hgoes hcut).le
  · have htime := timeAfter_mono hdt k.zero_le fun j hj ↦ hgoes j hj.le
    exact (timeAfter_succ_of_whole htime hwhole).2

end Times

namespace Solver

variable {ε σ : Type} {n : Nat}

/-- In double precision the times that a run shows never decrease and never exceed the final time,
whether its steps fail or not. Its steps are positive and at most `dt`. A step that is cut to the
time left ends exactly at the final time, and it is the last one. -/
theorem lands_of_integrate {dt : Rounded Rounding.binary64} (hdt : 0 < dt)
    (solver : Solver (Rounded Rounding.binary64)) (f : RateFunction ε σ (Rounded Rounding.binary64))
    (x : Vector (Rounded Rounding.binary64) n) (tFinal : Rounded Rounding.binary64) (memory : σ)
    (budget : Nat) : ∃ m outcome final,
      solver.integrate budget f recordCalls x tFinal dt memory [] = (outcome, final) ∧
      final.seen = solver.callsAfter f x tFinal dt memory m ∧
      (final.seen.Pairwise fun later earlier ↦ earlier.2.1 ≤ later.2.1) ∧
      (∀ call ∈ final.seen, call.2.1 ≤ tFinal) ∧
      (∀ k < m, GoesOn tFinal dt k) ∧
      ∀ k ≤ m, GoesOn tFinal dt k →
        0 < stepSize tFinal dt k ∧ stepSize tFinal dt k ≤ dt ∧
        (tFinal - timeAfter tFinal dt k ≤ dt →
          stepSize tFinal dt k = tFinal - timeAfter tFinal dt k ∧
          timeAfter tFinal dt (k + 1) = tFinal ∧ ¬ GoesOn tFinal dt (k + 1) ∧ m ≤ k + 1 ∧
          (m = k + 1 → outcome = .ok ⟨k + 1, tFinal⟩)) := by
  obtain ⟨m, outcome, final, hrun, hseen, hbefore, hend⟩ :=
    solver.exists_integrate_eq f x memory hdt budget
  refine ⟨m, outcome, final, hrun, hseen, ?_, ?_, hbefore, ?_⟩
  · rw [hseen, callsAfter, List.pairwise_reverse, List.pairwise_map]
    refine List.Pairwise.imp_of_mem ?_ List.pairwise_lt_range
    intro i j hi hj hij
    exact timeAfter_mono hdt (Nat.succ_le_succ hij.le)
      fun l hl ↦ hbefore l (hl.trans_le (List.mem_range.1 hj))
  · intro call hcall
    rw [hseen, callsAfter, List.mem_reverse] at hcall
    obtain ⟨j, hj, rfl⟩ := List.mem_map.1 hcall
    exact timeAfter_succ_le hdt fun l hl ↦ hbefore l (hl.trans_lt (List.mem_range.1 hj))
  · intro k hk hgoes
    obtain ⟨hpos, hle⟩ := stepSize_mem hdt hgoes
    refine ⟨hpos, hle, fun hcut ↦ ?_⟩
    have hsofar (j : Nat) (hj : j ≤ k) : GoesOn tFinal dt j := by
      rcases hj.lt_or_eq with hlt | rfl
      · exact hbefore j (hlt.trans_le hk)
      · exact hgoes
    have hlands := timeAfter_succ_eq hdt hsofar hcut
    have hstop := not_goesOn_of_eq hdt (congrArg Subtype.val hlands)
    refine ⟨min_eq_right hcut, hlands, hstop, not_lt.1 fun hlt ↦ hstop (hbefore _ hlt),
      fun hm ↦ ?_⟩
    subst hm
    rw [hend hstop, hlands]

theorem lands_of_integrate_cut : let dt : Rounded Rounding.binary64 := 0.3
    ∃ final, (ofTableau .forwardEuler).integrate 4
      (.linear 1 : RateFunction Empty Unit (Rounded Rounding.binary64)) recordCalls #v[1] 1 dt () [] =
        (.ok ⟨4, 1⟩, final) ∧
      (∀ call ∈ final.seen, call.2.1 ≤ 1) ∧ timeAfter 1 dt 3 < 0.9 ∧ timeAfter 1 dt 4 = 1 := by
  intro dt
  let f : RateFunction Empty Unit (Rounded Rounding.binary64) := .linear 1
  have hdt : 0 < dt := by decide +kernel
  obtain ⟨m, outcome, final, hrun, hseen, -, hle, -, hsteps⟩ :=
    lands_of_integrate hdt (ofTableau .forwardEuler) f #v[1] 1 () 4
  have hm : m = 4 := by
    have hcalls : final.seen.length = 4 := by
      have hfinal := congrArg (fun run ↦ run.2.seen.length) hrun
      exact hfinal.symm.trans (by decide +kernel)
    rw [hseen, callsAfter] at hcalls
    simpa using hcalls
  obtain ⟨-, -, hcut⟩ := hsteps 3 (by omega) (by decide +kernel)
  obtain ⟨-, hlands, -, -, houtcome⟩ := hcut (by decide +kernel)
  rw [houtcome hm] at hrun
  exact ⟨final, hrun, hle, by decide +kernel, hlands⟩

end Solver

end GraphTransport
