import GraphTransport.Proofs.RungeKutta.Requests
import GraphTransport.Proofs.RungeKutta.Run

namespace GraphTransport

variable {ε σ α : Type} [Scalar α] {n : Nat}

def timeAfter (tFinal dt : α) : Nat → α
  | 0 => 0
  | k + 1 => timeAfter tFinal dt k + min dt (tFinal - timeAfter tFinal dt k)

def stepSize (tFinal dt : α) (k : Nat) : α := min dt (tFinal - timeAfter tFinal dt k)

def GoesOn (tFinal dt : α) (k : Nat) : Prop := timeAfter tFinal dt k < tFinal - 1e-8 * dt

instance (tFinal dt : α) (k : Nat) : Decidable (GoesOn tFinal dt k) :=
  inferInstanceAs (Decidable (timeAfter tFinal dt k < tFinal - 1e-8 * dt))

/-- The number of steps that a run takes if no step fails and its budget is `budget`. -/
def stepsWithin (tFinal dt : α) : Nat → Nat
  | 0 => 0
  | budget + 1 =>
    let k := stepsWithin tFinal dt budget
    if GoesOn tFinal dt k then k + 1 else k

def outcomeAfter (tFinal dt : α) (k : Nat) : Except (Fault ε) (IntegrationReport α) :=
  if GoesOn tFinal dt k then .error (.broken .stepBudgetSpent)
  else .ok ⟨k, timeAfter tFinal dt k⟩

theorem stepsWithin_spec (tFinal dt : α) (budget : Nat) :
    stepsWithin tFinal dt budget ≤ budget ∧
      (∀ j < stepsWithin tFinal dt budget, GoesOn tFinal dt j) ∧
      (GoesOn tFinal dt (stepsWithin tFinal dt budget) → stepsWithin tFinal dt budget = budget) := by
  induction budget with
  | zero => exact ⟨le_rfl, fun j hj ↦ absurd hj (Nat.not_lt_zero j), fun _ ↦ rfl⟩
  | succ budget ih =>
    obtain ⟨hle, hbefore, hspent⟩ := ih
    rw [stepsWithin]
    by_cases hgoes : GoesOn tFinal dt (stepsWithin tFinal dt budget)
    · rw [if_pos hgoes]
      refine ⟨Nat.succ_le_succ hle, fun j hj ↦ ?_, fun _ ↦ congrArg (· + 1) (hspent hgoes)⟩
      rcases (Nat.le_of_lt_succ hj).lt_or_eq with hlt | rfl
      · exact hbefore j hlt
      · exact hgoes
    · rw [if_neg hgoes]
      exact ⟨Nat.le_succ_of_le hle, hbefore, fun h ↦ absurd h hgoes⟩

namespace Solver

def Stepped.next (stepped : Stepped ε σ α n) (f : RateFunction ε σ α) (dt : α) : Stepped ε σ α n :=
  stepped.solver.step f stepped.x stepped.t dt stepped.memory

/-- Where successive steps lead, the first of them of size `size 0`. After a step that fails there
is no other. -/
def successive (f : RateFunction ε σ α) (size : Nat → α) (start : Stepped ε σ α n) :
    Nat → Stepped ε σ α n
  | 0 => start
  | k + 1 =>
    let stepped := successive f size start k
    match stepped.outcome with
    | .error _ => stepped
    | .ok () => stepped.next f (size k)

section Successive

variable {f : RateFunction ε σ α} {size : Nat → α} {start : Stepped ε σ α n} {k : Nat}

theorem successive_succ_of_ok (h : (successive f size start k).outcome = .ok ()) :
    successive f size start (k + 1) = (successive f size start k).next f (size k) := by
  rw [successive]
  simp only [h]

theorem successive_succ_of_error {e : Fault ε}
    (h : (successive f size start k).outcome = .error e) :
    successive f size start (k + 1) = successive f size start k := by
  rw [successive]
  simp only [h]

theorem ok_of_successive_succ (h : (successive f size start (k + 1)).outcome = .ok ()) :
    (successive f size start k).outcome = .ok () := by
  cases hk : (successive f size start k).outcome with
  | error e =>
    rw [successive_succ_of_error hk, hk] at h
    cases h
  | ok _ => rfl

theorem successive_congr {size' : Nat → α} (h : ∀ j < k, size j = size' j) :
    successive f size start k = successive f size' start k := by
  induction k with
  | zero => rfl
  | succ k ih =>
    rw [successive, successive, ih fun j hj ↦ h j (Nat.lt_succ_of_lt hj), h k (Nat.lt_succ_self k)]

theorem successive_ok (hf : f.NeverFails n) (hstart : start.outcome = .ok ()) (k : Nat) :
    (successive f size start k).outcome = .ok () := by
  induction k with
  | zero => exact hstart
  | succ k ih =>
    rw [successive_succ_of_ok ih]
    exact step_ok _ hf _ _ _ _

theorem tableau_successive (hf : f.NeverFails n) (hstart : start.outcome = .ok ()) (k : Nat) :
    (successive f size start k).solver.tableau = start.solver.tableau := by
  induction k with
  | zero => rfl
  | succ k ih =>
    rw [successive_succ_of_ok (successive_ok hf hstart k)]
    exact (tableau_step _ _ _ _ _ _).trans ih

theorem x_successive_succ {F : Vector α n → Vector α n} (hf : f.Computes F)
    (hstart : start.outcome = .ok ()) (k : Nat) : (successive f size start (k + 1)).x =
      start.solver.tableau.stepMap F (size k) (successive f size start k).x := by
  let stepped := successive f size start k
  obtain ⟨-, -, hx, -⟩ := stepped.solver.step_eq hf stepped.x stepped.t (size k) stepped.memory
  rw [successive_succ_of_ok (successive_ok hf.neverFails hstart k), Stepped.next, hx,
    tableau_successive hf.neverFails hstart]

end Successive

variable (solver : Solver α) (f : RateFunction ε σ α) (x : Vector α n) (tFinal dt : α) (memory : σ)

def course : Nat → Stepped ε σ α n :=
  successive f (stepSize tFinal dt) ⟨.ok (), solver, x, 0, memory⟩

def callsAfter (k : Nat) : List (Nat × α × Vector α n) :=
  ((List.range k).map fun j ↦ (j + 1, timeAfter tFinal dt (j + 1),
    (solver.course f x tFinal dt memory (j + 1)).x)).reverse

def runAfter (k : Nat) : Run σ (List (Nat × α × Vector α n)) α n :=
  let stepped := solver.course f x tFinal dt memory k
  { solver := stepped.solver, x := stepped.x, t := timeAfter tFinal dt k, steps := k,
    memory := stepped.memory, seen := solver.callsAfter f x tFinal dt memory k }

variable {solver f x tFinal dt memory}

theorem course_succ {k : Nat} (hok : (solver.course f x tFinal dt memory k).outcome = .ok ()) :
    solver.course f x tFinal dt memory (k + 1) =
      (solver.course f x tFinal dt memory k).next f (stepSize tFinal dt k) :=
  successive_succ_of_ok hok

theorem t_course {k : Nat} (hok : (solver.course f x tFinal dt memory k).outcome = .ok ()) :
    (solver.course f x tFinal dt memory k).t = timeAfter tFinal dt k := by
  induction k with
  | zero => rfl
  | succ k ih =>
    have hk := ok_of_successive_succ hok
    rw [course_succ hk, Stepped.next] at hok ⊢
    rw [t_step_of_ok hok, ih hk]
    rfl

theorem course_succ_eq_nextStep {k : Nat}
    (hok : (solver.course f x tFinal dt memory k).outcome = .ok ()) :
    solver.course f x tFinal dt memory (k + 1) =
      (solver.runAfter f x tFinal dt memory k).nextStep f tFinal dt := by
  rw [course_succ hok, Stepped.next, t_course hok]
  rfl

theorem unfinished_runAfter (k : Nat) :
    (solver.runAfter f x tFinal dt memory k).unfinished tFinal dt ↔ GoesOn tFinal dt k :=
  Iff.rfl

theorem callsAfter_succ (k : Nat) : solver.callsAfter f x tFinal dt memory (k + 1) =
    (k + 1, timeAfter tFinal dt (k + 1), (solver.course f x tFinal dt memory (k + 1)).x) ::
      solver.callsAfter f x tFinal dt memory k := by
  rw [callsAfter, List.range_succ, List.map_append, List.reverse_append]
  rfl

theorem continueRun_runAfter (budget : Nat) {k : Nat} (hgoes : GoesOn tFinal dt k)
    (hok : (solver.course f x tFinal dt memory (k + 1)).outcome = .ok ()) :
    continueRun f recordCalls tFinal dt (budget + 1) (solver.runAfter f x tFinal dt memory k) =
      continueRun f recordCalls tFinal dt budget
        (solver.runAfter f x tFinal dt memory (k + 1)) := by
  have hnext := course_succ_eq_nextStep (ok_of_successive_succ hok)
  have ht := t_course hok
  have hrun : solver.runAfter f x tFinal dt memory (k + 1) =
      { solver := (solver.course f x tFinal dt memory (k + 1)).solver
        x := (solver.course f x tFinal dt memory (k + 1)).x
        t := (solver.course f x tFinal dt memory (k + 1)).t
        steps := k + 1
        memory := (solver.course f x tFinal dt memory (k + 1)).memory
        seen := (k + 1, (solver.course f x tFinal dt memory (k + 1)).t,
          (solver.course f x tFinal dt memory (k + 1)).x) ::
            solver.callsAfter f x tFinal dt memory k } := by
    rw [runAfter, callsAfter_succ, ht]
  rw [hnext] at hok hrun
  rw [continueRun_of_ok budget ((unfinished_runAfter k).2 hgoes) hok, hrun]
  rfl

theorem integrate_eq_continueRun (hdt : 0 < dt) {k budget : Nat} (hk : k ≤ budget)
    (hgoes : ∀ j < k, GoesOn tFinal dt j)
    (hok : (solver.course f x tFinal dt memory k).outcome = .ok ()) :
    solver.integrate budget f recordCalls x tFinal dt memory [] =
      continueRun f recordCalls tFinal dt (budget - k)
        (solver.runAfter f x tFinal dt memory k) := by
  induction k with
  | zero =>
    rw [integrate, if_pos hdt]
    rfl
  | succ k ih =>
    rw [ih (by omega) (fun j hj ↦ hgoes j (by omega)) (ok_of_successive_succ hok)]
    obtain ⟨rest, hrest⟩ : ∃ rest, budget - k = rest + 1 := ⟨budget - (k + 1), by omega⟩
    rw [hrest, continueRun_runAfter rest (hgoes k (Nat.lt_succ_self k)) hok]
    congr 1
    omega

theorem integrate_of_finished (hdt : 0 < dt) {k budget : Nat} (hk : k ≤ budget)
    (hgoes : ∀ j < k, GoesOn tFinal dt j) (hend : ¬ GoesOn tFinal dt k)
    (hok : (solver.course f x tFinal dt memory k).outcome = .ok ()) :
    solver.integrate budget f recordCalls x tFinal dt memory [] =
      (.ok ⟨k, timeAfter tFinal dt k⟩, solver.runAfter f x tFinal dt memory k) := by
  rw [integrate_eq_continueRun hdt hk hgoes hok]
  exact continueRun_of_finished _ (mt (unfinished_runAfter k).1 hend)

theorem integrate_of_failure (hdt : 0 < dt) {k budget : Nat} (hk : k < budget)
    (hgoes : ∀ j ≤ k, GoesOn tFinal dt j)
    (hok : (solver.course f x tFinal dt memory k).outcome = .ok ()) {e : Fault ε}
    (hfails : (solver.course f x tFinal dt memory (k + 1)).outcome = .error e) :
    ∃ final, solver.integrate budget f recordCalls x tFinal dt memory [] = (.error e, final) ∧
      final.x = (solver.course f x tFinal dt memory k).x ∧
      final.seen = solver.callsAfter f x tFinal dt memory k := by
  have hnext := course_succ_eq_nextStep hok
  rw [hnext] at hfails
  obtain ⟨rest, hrest⟩ : ∃ rest, budget - k = rest + 1 := ⟨budget - (k + 1), by omega⟩
  rw [integrate_eq_continueRun hdt hk.le (fun j hj ↦ hgoes j hj.le) hok, hrest,
    continueRun_of_error rest ((unfinished_runAfter k).2 (hgoes k le_rfl)) hfails]
  exact ⟨_, rfl, (step_of_error hfails).1, rfl⟩

theorem integrate_of_ok (hdt : 0 < dt) (budget : Nat)
    (hok : (solver.course f x tFinal dt memory (stepsWithin tFinal dt budget)).outcome = .ok ()) :
    solver.integrate budget f recordCalls x tFinal dt memory [] =
      (outcomeAfter tFinal dt (stepsWithin tFinal dt budget),
        solver.runAfter f x tFinal dt memory (stepsWithin tFinal dt budget)) := by
  obtain ⟨hle, hbefore, hspent⟩ := stepsWithin_spec tFinal dt budget
  by_cases hgoes : GoesOn tFinal dt (stepsWithin tFinal dt budget)
  · rw [integrate_eq_continueRun hdt hle hbefore hok, hspent hgoes, Nat.sub_self]
    rw [hspent hgoes] at hgoes
    rw [continueRun_zero ((unfinished_runAfter budget).2 hgoes), outcomeAfter, if_pos hgoes]
  · rw [integrate_of_finished hdt hle hbefore hgoes hok, outcomeAfter, if_neg hgoes]

theorem integrate_of_course_ok (hdt : 0 < dt) (budget : Nat)
    (hok : ∀ k, (solver.course f x tFinal dt memory k).outcome = .ok ()) :
    solver.integrate budget f recordCalls x tFinal dt memory [] =
      (outcomeAfter tFinal dt (stepsWithin tFinal dt budget),
        solver.runAfter f x tFinal dt memory (stepsWithin tFinal dt budget)) :=
  integrate_of_ok hdt budget (hok _)

theorem exists_failing_step {k : Nat} {e : Fault ε}
    (h : (solver.course f x tFinal dt memory k).outcome = .error e) :
    ∃ j < k, (solver.course f x tFinal dt memory j).outcome = .ok () ∧
      (solver.course f x tFinal dt memory (j + 1)).outcome = .error e := by
  induction k with
  | zero => cases h
  | succ k ih =>
    cases hk : (solver.course f x tFinal dt memory k).outcome with
    | ok _ => exact ⟨k, k.lt_succ_self, hk, h⟩
    | error e' =>
      have hsame : solver.course f x tFinal dt memory (k + 1) =
          solver.course f x tFinal dt memory k := successive_succ_of_error hk
      obtain ⟨j, hj, hfails⟩ := ih (hsame ▸ h)
      exact ⟨j, Nat.lt_succ_of_lt hj, hfails⟩

/-- Whether a step fails or not, a run shows the observer its first steps, and none after the one
with which it is finished. -/
theorem exists_integrate_eq (solver : Solver α) (f : RateFunction ε σ α) (x : Vector α n)
    (memory : σ) (hdt : 0 < dt) (budget : Nat) : ∃ m outcome final,
    solver.integrate budget f recordCalls x tFinal dt memory [] = (outcome, final) ∧
    final.seen = solver.callsAfter f x tFinal dt memory m ∧ (∀ j < m, GoesOn tFinal dt j) ∧
    (¬ GoesOn tFinal dt m → outcome = .ok ⟨m, timeAfter tFinal dt m⟩) := by
  obtain ⟨hle, hbefore, -⟩ := stepsWithin_spec tFinal dt budget
  cases hok : (solver.course f x tFinal dt memory (stepsWithin tFinal dt budget)).outcome with
  | error e =>
    obtain ⟨k, hk, hokk, hfails⟩ := exists_failing_step hok
    obtain ⟨final, hrun, -, hseen⟩ := integrate_of_failure hdt (hk.trans_le hle)
      (fun j hj ↦ hbefore j (hj.trans_lt hk)) hokk hfails
    exact ⟨k, _, final, hrun, hseen, fun j hj ↦ hbefore j (hj.trans hk),
      fun hend ↦ absurd (hbefore k hk) hend⟩
  | ok _ => exact ⟨_, _, _, integrate_of_ok hdt budget hok, rfl, hbefore, fun hend ↦ if_neg hend⟩

theorem exists_integrate_eq_ok_iff (hdt : 0 < dt)
    (hok : ∀ k, (solver.course f x tFinal dt memory k).outcome = .ok ()) :
    (∃ budget report final,
      solver.integrate budget f recordCalls x tFinal dt memory [] = (.ok report, final)) ↔
      ∃ k, ¬ GoesOn tFinal dt k := by
  constructor
  · rintro ⟨budget, report, final, hrun⟩
    rw [integrate_of_course_ok hdt budget hok] at hrun
    refine ⟨stepsWithin tFinal dt budget, fun hgoes ↦ ?_⟩
    rw [outcomeAfter, if_pos hgoes] at hrun
    cases hrun
  · rintro ⟨k, hend⟩
    obtain ⟨-, -, hspent⟩ := stepsWithin_spec tFinal dt k
    have hends : ¬ GoesOn tFinal dt (stepsWithin tFinal dt k) := fun hgoes ↦
      hend (hspent hgoes ▸ hgoes)
    have hrun := integrate_of_course_ok hdt k hok
    rw [outcomeAfter, if_neg hends] at hrun
    exact ⟨k, _, _, hrun⟩

theorem course_ok (hf : f.NeverFails n) (k : Nat) :
    (solver.course f x tFinal dt memory k).outcome = .ok () :=
  successive_ok hf rfl k

theorem x_course_succ {F : Vector α n → Vector α n} (hf : f.Computes F) (k : Nat) :
    (solver.course f x tFinal dt memory (k + 1)).x =
      solver.tableau.stepMap F (stepSize tFinal dt k)
        (solver.course f x tFinal dt memory k).x :=
  x_successive_succ hf rfl k

end Solver

end GraphTransport
