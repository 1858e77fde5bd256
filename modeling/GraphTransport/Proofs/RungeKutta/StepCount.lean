import Mathlib.Data.Rat.Floor
import GraphTransport.Proofs.RungeKutta.Course
import GraphTransport.Proofs.Scalar.Exact
import GraphTransport.RungeKutta.Methods

namespace GraphTransport

section Times

variable {F : Type} [Field F] [LinearOrder F]

/-- The sizes of `steps` steps to `tFinal`: all are `dt`, but the last one is cut. -/
def cutSize (steps : Nat) (tFinal dt : F) (k : Nat) : F :=
  if k + 1 < steps then dt else min dt (tFinal - ((steps : F) - 1) * dt)

def cutTime (tFinal dt : F) (k : Nat) : F := if k = 0 then 0 else min (k * dt) tFinal

variable [IsStrictOrderedRing F] [FloorSemiring F]

/-- The number of steps of size `dt` that a run to `tFinal` takes. -/
def stepCount (tFinal dt : F) : Nat := ⌈tFinal / dt - 1e-8⌉₊

variable {tFinal dt : F}

theorem lt_stepCount_iff (hdt : 0 < dt) {k : Nat} :
    k < stepCount tFinal dt ↔ k * dt < tFinal - 1e-8 * dt := by
  rw [stepCount, Nat.lt_ceil, lt_sub_iff_add_lt, lt_div_iff₀ hdt, lt_sub_iff_add_lt, add_mul]

theorem mul_le_of_lt_stepCount (hdt : 0 < dt) {k : Nat} (hk : k < stepCount tFinal dt) :
    k * dt ≤ tFinal := by
  have htolerance : 0 ≤ 1e-8 * dt := mul_nonneg (by norm_num) hdt.le
  have hbefore := (lt_stepCount_iff hdt).1 hk
  linarith

theorem cutTime_of_lt (hdt : 0 < dt) {k : Nat} (hk : k < stepCount tFinal dt) :
    cutTime tFinal dt k = k * dt := by
  rw [cutTime]
  split
  · rename_i hzero
    rw [hzero, Nat.cast_zero, zero_mul]
  · exact min_eq_left (mul_le_of_lt_stepCount hdt hk)

theorem le_cutTime_stepCount (hdt : 0 < dt) :
    tFinal - 1e-8 * dt ≤ cutTime tFinal dt (stepCount tFinal dt) := by
  have hend := not_lt.1 (mt (lt_stepCount_iff hdt).2 (lt_irrefl (stepCount tFinal dt)))
  have htolerance : 0 ≤ 1e-8 * dt := mul_nonneg (by norm_num) hdt.le
  rw [cutTime]
  split
  · rename_i hzero
    rwa [hzero, Nat.cast_zero, zero_mul] at hend
  · exact le_min hend (by linarith)

omit [IsStrictOrderedRing F] [FloorSemiring F] in
theorem cutTime_le (htFinal : 0 ≤ tFinal) (k : Nat) : cutTime tFinal dt k ≤ tFinal := by
  rw [cutTime]
  split
  · exact htFinal
  · exact min_le_right _ _

theorem timeAfter_eq (hdt : 0 < dt) {k : Nat} (hk : k ≤ stepCount tFinal dt) :
    timeAfter tFinal dt k = cutTime tFinal dt k := by
  induction k with
  | zero => rfl
  | succ k ih =>
    -- All steps so far were whole ones, as there is one more to come.
    have hadd : timeAfter tFinal dt (k + 1) =
        timeAfter tFinal dt k + min dt (tFinal - timeAfter tFinal dt k) := rfl
    rw [hadd, ih (Nat.le_of_succ_le hk), cutTime_of_lt hdt hk, ← min_add_add_left, ← add_one_mul,
      add_sub_cancel, cutTime, if_neg k.succ_ne_zero, Nat.cast_succ]

theorem goesOn_of_lt_stepCount (hdt : 0 < dt) {k : Nat} (hk : k < stepCount tFinal dt) :
    GoesOn tFinal dt k := by
  have hbefore := (lt_stepCount_iff hdt).1 hk
  rwa [← cutTime_of_lt hdt hk, ← timeAfter_eq hdt hk.le] at hbefore

theorem not_goesOn_stepCount (hdt : 0 < dt) : ¬ GoesOn tFinal dt (stepCount tFinal dt) := by
  have htime : tFinal - 1e-8 * dt ≤ cutTime tFinal dt (stepCount tFinal dt) :=
    le_cutTime_stepCount hdt
  rw [← timeAfter_eq hdt le_rfl] at htime
  exact not_lt_of_ge htime

theorem stepSize_eq (hdt : 0 < dt) {k : Nat} (hk : k < stepCount tFinal dt) :
    stepSize tFinal dt k = cutSize (stepCount tFinal dt) tFinal dt k := by
  have hsize : stepSize tFinal dt k = min dt (tFinal - k * dt) := by
    rw [← cutTime_of_lt hdt hk, ← timeAfter_eq hdt hk.le]
    rfl
  rw [hsize, cutSize]
  split
  · rename_i hfull
    have hnext := mul_le_of_lt_stepCount hdt hfull
    push_cast at hnext
    exact min_eq_left (by linarith)
  · have hlast : stepCount tFinal dt = k + 1 := by omega
    rw [hlast, Nat.cast_succ, add_sub_cancel_right]

end Times

namespace Solver

variable {ε σ F : Type} [Field F] [LinearOrder F] [IsStrictOrderedRing F] [FloorSemiring F]
  {n : Nat}

def cutCourse (solver : Solver F) (f : RateFunction ε σ F) (x : Vector F n) (tFinal dt : F)
    (memory : σ) : Nat → Stepped ε σ F n :=
  successive f (cutSize (stepCount tFinal dt) tFinal dt) ⟨.ok (), solver, x, 0, memory⟩

def cutRequests (solver : Solver F) (f : RateFunction ε σ F) (x : Vector F n) (tFinal dt : F)
    (memory : σ) (k : Nat) : List (Request ε F) :=
  let stepped := solver.cutCourse f x tFinal dt memory k
  stepped.solver.requests f stepped.x stepped.t (cutSize (stepCount tFinal dt) tFinal dt k)
    stepped.memory

def cutCalls (solver : Solver F) (f : RateFunction ε σ F) (x : Vector F n) (tFinal dt : F)
    (memory : σ) (k : Nat) : List (Nat × F × Vector F n) :=
  (List.range k).map fun j ↦
    (j + 1, cutTime tFinal dt (j + 1), (solver.cutCourse f x tFinal dt memory (j + 1)).x)

variable {solver : Solver F} {f : RateFunction ε σ F} {x : Vector F n} {tFinal dt : F} {memory : σ}

theorem course_eq_cutCourse (hdt : 0 < dt) {k : Nat} (hk : k ≤ stepCount tFinal dt) :
    solver.course f x tFinal dt memory k = solver.cutCourse f x tFinal dt memory k :=
  successive_congr fun _ hj ↦ stepSize_eq hdt (hj.trans_le hk)

theorem callsAfter_eq_cutCalls (hdt : 0 < dt) {k : Nat} (hk : k ≤ stepCount tFinal dt) :
    (solver.callsAfter f x tFinal dt memory k).reverse = solver.cutCalls f x tFinal dt memory k := by
  rw [callsAfter, List.reverse_reverse, cutCalls]
  refine List.map_congr_left fun j hj ↦ ?_
  have hj : j + 1 ≤ stepCount tFinal dt := (List.mem_range.1 hj).trans_le hk
  rw [timeAfter_eq hdt hj, course_eq_cutCourse hdt hj]

omit [IsStrictOrderedRing F] in
theorem outcome_cutCourse_succ {k : Nat}
    (hok : (solver.cutCourse f x tFinal dt memory k).outcome = .ok ()) {e : Fault ε} :
    (solver.cutCourse f x tFinal dt memory (k + 1)).outcome = .error e ↔
      ∃ request ∈ solver.cutRequests f x tFinal dt memory k, request.outcome = .error e := by
  have hsucc := successive_succ_of_ok hok
  rw [cutCourse, hsucc]
  exact step_eq_error_iff

omit [IsStrictOrderedRing F] in
theorem outcome_cutCourse {k : Nat} (hok : ∀ j < k,
    ∀ request ∈ solver.cutRequests f x tFinal dt memory j, request.outcome = .ok ()) :
    (solver.cutCourse f x tFinal dt memory k).outcome = .ok () := by
  induction k with
  | zero => rfl
  | succ k ih =>
    have hk := ih fun j hj ↦ hok j (Nat.lt_succ_of_lt hj)
    cases hnext : (solver.cutCourse f x tFinal dt memory (k + 1)).outcome with
    | ok _ => rfl
    | error e =>
      obtain ⟨request, hrequest, he⟩ := (outcome_cutCourse_succ hk).1 hnext
      rw [hok k (Nat.lt_succ_self k) request hrequest] at he
      cases he

theorem exists_integrate_eq_ok {τ : Type} {observe : Observer τ F n}
    {note : Nat → F → Vector F n → τ → τ}
    (hobserve : ∀ step t x seen, observe step t x seen = .ok (note step t x seen))
    (hf : f.NeverFails n) (hdt : 0 < dt) (solver : Solver F) (x : Vector F n) (tFinal : F)
    (memory : σ) (seen : τ) : ∃ final, ∀ budget, stepCount tFinal dt ≤ budget →
      solver.integrate budget f observe x tFinal dt memory seen =
        (.ok ⟨stepCount tFinal dt, cutTime tFinal dt (stepCount tFinal dt)⟩, final) := by
  refine ⟨(solver.runAfter f x tFinal dt memory (stepCount tFinal dt)).noted note seen,
    fun budget hbudget ↦ ?_⟩
  rw [integrate_noted hobserve, integrate_of_finished hdt hbudget
    (fun _ hj ↦ goesOn_of_lt_stepCount hdt hj) (not_goesOn_stepCount hdt) (course_ok hf _),
    timeAfter_eq hdt le_rfl]
  rfl

/-- A run in which no evaluation fails takes `⌈tFinal / dt - 1e-8⌉` steps, or none if that is
negative. It shows the observer each of them, with the multiples of `dt` up to the final time, and
comes to the final time up to `1e-8` of a step. If an evaluation of a step fails, the run ends with
that error where the steps before have led, and these are all that it has shown. -/
theorem integrate_eq_cutCourse (solver : Solver F) (f : RateFunction ε σ F) (x : Vector F n)
    (tFinal : F) {dt : F} (hdt : 0 < dt) (memory : σ) :
    ((∀ k < stepCount tFinal dt,
        ∀ request ∈ solver.cutRequests f x tFinal dt memory k, request.outcome = .ok ()) →
      ∀ budget, stepCount tFinal dt ≤ budget → ∃ final,
        solver.integrate budget f recordCalls x tFinal dt memory [] =
          (.ok ⟨stepCount tFinal dt, cutTime tFinal dt (stepCount tFinal dt)⟩, final) ∧
        final.x = (solver.cutCourse f x tFinal dt memory (stepCount tFinal dt)).x ∧
        final.seen.reverse = solver.cutCalls f x tFinal dt memory (stepCount tFinal dt)) ∧
    (0 ≤ tFinal → tFinal - 1e-8 * dt ≤ cutTime tFinal dt (stepCount tFinal dt) ∧
      cutTime tFinal dt (stepCount tFinal dt) ≤ tFinal) ∧
    ∀ m < stepCount tFinal dt,
      (∀ k < m, ∀ request ∈ solver.cutRequests f x tFinal dt memory k, request.outcome = .ok ()) →
      ∀ request ∈ solver.cutRequests f x tFinal dt memory m, ∀ e, request.outcome = .error e →
      ∀ budget, m < budget → ∃ final,
        solver.integrate budget f recordCalls x tFinal dt memory [] = (.error e, final) ∧
        final.x = (solver.cutCourse f x tFinal dt memory m).x ∧
        final.seen.reverse = solver.cutCalls f x tFinal dt memory m := by
  refine ⟨fun hok budget hbudget ↦ ?_,
    fun htFinal ↦ ⟨le_cutTime_stepCount hdt, cutTime_le htFinal _⟩,
    fun m hm hok request hrequest e he budget hbudget ↦ ?_⟩
  · have hcourse : (solver.course f x tFinal dt memory (stepCount tFinal dt)).outcome = .ok () := by
      rw [course_eq_cutCourse hdt le_rfl]
      exact outcome_cutCourse hok
    have hrun := integrate_of_finished hdt hbudget (fun _ hj ↦ goesOn_of_lt_stepCount hdt hj)
      (not_goesOn_stepCount hdt) hcourse
    rw [timeAfter_eq hdt le_rfl] at hrun
    refine ⟨_, hrun, ?_, callsAfter_eq_cutCalls hdt le_rfl⟩
    exact congrArg Stepped.x (course_eq_cutCourse hdt le_rfl)
  · have hcut := outcome_cutCourse hok
    have hfails := (outcome_cutCourse_succ hcut).2 ⟨request, hrequest, he⟩
    rw [← course_eq_cutCourse hdt hm.le] at hcut
    rw [← course_eq_cutCourse hdt hm] at hfails
    obtain ⟨final, hrun, hx, hseen⟩ := integrate_of_failure hdt hbudget
      (fun _ hj ↦ goesOn_of_lt_stepCount hdt (hj.trans_lt hm)) hcut hfails
    refine ⟨final, hrun, ?_, ?_⟩
    · rw [hx, course_eq_cutCourse hdt hm.le]
    · rw [hseen, callsAfter_eq_cutCalls hdt hm.le]

theorem integrate_eq_cutCourse_forwardEuler :
    (∃ final, (ofTableau .forwardEuler).integrate 3 (.linear 1 : RateFunction Empty Unit ℚ)
        recordCalls #v[1] 5 2 () [] = (.ok ⟨3, 5⟩, final) ∧ final.x = #v[18] ∧
      final.seen.reverse = [(1, 2, #v[3]), (2, 4, #v[9]), (3, 5, #v[18])]) ∧
    ∃ final, (ofTableau .forwardEuler).integrate 3
        ((.linear 1 : RateFunction Empty Unit ℚ).metered (some 2)) recordCalls #v[1] 5 2 ⟨0, ()⟩ [] =
        (.error (.refused .exhausted), final) ∧ final.x = #v[9] ∧
      final.seen.reverse = [(1, 2, #v[3]), (2, 4, #v[9])] := by
  let f : RateFunction Empty Unit ℚ := .linear 1
  have hcount : stepCount (5 : ℚ) 2 = 3 := by
    rw [stepCount, Nat.ceil_eq_iff (by decide)]
    norm_num
  have htwo : (0 : ℚ) < 2 := two_pos
  obtain ⟨hends, -, -⟩ := integrate_eq_cutCourse (ofTableau .forwardEuler) f #v[1] 5 htwo ()
  obtain ⟨-, -, hfails⟩ := integrate_eq_cutCourse (ofTableau .forwardEuler) (f.metered (some 2))
    #v[1] 5 htwo ⟨0, ()⟩
  constructor
  · rw [hcount] at hends
    obtain ⟨final, hrun, hx, hseen⟩ := hends (by decide +kernel) 3 le_rfl
    have htime : cutTime (5 : ℚ) 2 3 = 5 := by norm_num [cutTime]
    rw [htime] at hrun
    refine ⟨final, hrun, hx.trans (by decide +kernel), hseen.trans (by decide +kernel)⟩
  · have hbefore (k : Nat) (hk : k < 2) : ∀ request ∈ (ofTableau .forwardEuler).cutRequests
        (f.metered (some 2)) #v[1] 5 2 ⟨0, ()⟩ k, request.outcome = .ok () := by
      obtain rfl | rfl : k = 0 ∨ k = 1 := by omega
      all_goals exact List.forall_mem_singleton.2 rfl
    rw [hcount] at hfails
    obtain ⟨final, hrun, hx, hseen⟩ := hfails 2 (by decide) hbefore _ (List.mem_singleton.2 rfl) _
      rfl 3 (by decide)
    exact ⟨final, hrun, hx.trans (by decide +kernel), hseen.trans (by decide +kernel)⟩

end Solver

end GraphTransport
