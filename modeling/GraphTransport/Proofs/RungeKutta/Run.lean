import Mathlib.Tactic.Linarith
import Mathlib.Tactic.NormNum
import GraphTransport.Proofs.Scalar.Exact
import GraphTransport.Proofs.RungeKutta.Step
import GraphTransport.RungeKutta.Integrate

namespace GraphTransport

variable {ε σ τ α : Type} {n : Nat}

def recordCalls : Observer (List (Nat × α × Vector α n)) α n :=
  fun step t x calls ↦ .ok ((step, t, x) :: calls)

theorem recordCalls_eq (step : Nat) (t : α) (x : Vector α n) (calls : List (Nat × α × Vector α n)) :
    recordCalls step t x calls = .ok ((step, t, x) :: calls) := rfl

/-- What relates the number of steps, the time, the state and the memory of the observer before a
step of a run relates them after it. -/
def RunInvariant [Scalar α] (T : Tableau α) (F : Vector α n → Vector α n)
    (note : Nat → α → Vector α n → τ → τ) (tFinal dt : α)
    (I : Nat → α → Vector α n → τ → Prop) : Prop :=
  ∀ steps t x seen, I steps t x seen → t < tFinal - 1e-8 * dt →
    let size := min dt (tFinal - t)
    let x' := T.stepMap F size x
    I (steps + 1) (t + size) x' (note (steps + 1) (t + size) x' seen)

namespace Solver

section Loop

variable [Scalar α] {f : RateFunction ε σ α} {observe : Observer τ α n} {tFinal dt : α}
  {run : Run σ τ α n}

def Run.afterStep (run : Run σ τ α n) (stepped : Stepped ε σ α n) : Run σ τ α n :=
  { run with
    solver := stepped.solver, x := stepped.x, t := stepped.t, memory := stepped.memory }

def Run.nextStep (run : Run σ τ α n) (f : RateFunction ε σ α) (tFinal dt : α) :
    Stepped ε σ α n :=
  run.solver.step f run.x run.t (min dt (tFinal - run.t)) run.memory

theorem continueRun_of_finished (budget : Nat) (h : ¬ run.unfinished tFinal dt) :
    continueRun f observe tFinal dt budget run = (.ok ⟨run.steps, run.t⟩, run) := by
  cases budget <;> rw [continueRun, if_neg h]

theorem continueRun_zero (h : run.unfinished tFinal dt) :
    continueRun f observe tFinal dt 0 run = (.error (.broken .stepBudgetSpent), run) := by
  rw [continueRun, if_pos h]

theorem continueRun_of_error (budget : Nat) (h : run.unfinished tFinal dt) {e : Fault ε}
    (hfails : (run.nextStep f tFinal dt).outcome = .error e) :
    continueRun f observe tFinal dt (budget + 1) run =
      (.error e, run.afterStep (run.nextStep f tFinal dt)) := by
  rw [Run.nextStep] at hfails
  rw [continueRun, if_pos h]
  simp only [hfails]
  rfl

theorem continueRun_of_ok (budget : Nat) (h : run.unfinished tFinal dt)
    (hok : (run.nextStep f tFinal dt).outcome = .ok ()) :
    continueRun f observe tFinal dt (budget + 1) run =
      let next := { run.afterStep (run.nextStep f tFinal dt) with steps := run.steps + 1 }
      match observe next.steps next.t next.x next.seen with
      | .error violation => (.error (.broken violation), next)
      | .ok seen => continueRun f observe tFinal dt budget { next with seen } := by
  rw [Run.nextStep] at hok
  rw [continueRun, if_pos h]
  simp only [hok]
  rfl

theorem Run.tableau_nextStep (run : Run σ τ α n) (f : RateFunction ε σ α) (tFinal dt : α) :
    (run.nextStep f tFinal dt).solver.tableau = run.solver.tableau :=
  run.solver.tableau_step f run.x run.t (min dt (tFinal - run.t)) run.memory

theorem tableau_continueRun (f : RateFunction ε σ α) (observe : Observer τ α n) (tFinal dt : α)
    (budget : Nat) (run : Run σ τ α n) :
    (continueRun f observe tFinal dt budget run).2.solver.tableau = run.solver.tableau := by
  induction budget generalizing run with
  | zero =>
    by_cases h : run.unfinished tFinal dt
    · rw [continueRun_zero h]
    · rw [continueRun_of_finished _ h]
  | succ budget ih =>
    by_cases h : run.unfinished tFinal dt
    · cases hstep : (run.nextStep f tFinal dt).outcome with
      | error e =>
        rw [continueRun_of_error budget h hstep]
        exact run.tableau_nextStep f tFinal dt
      | ok _ =>
        rw [continueRun_of_ok budget h hstep]
        dsimp only
        split
        · exact run.tableau_nextStep f tFinal dt
        · exact (ih _).trans (run.tableau_nextStep f tFinal dt)
    · rw [continueRun_of_finished _ h]

theorem tableau_integrate (solver : Solver α) (f : RateFunction ε σ α) (observe : Observer τ α n)
    (budget : Nat) (x : Vector α n) (tFinal dt : α) (memory : σ) (seen : τ) :
    (solver.integrate budget f observe x tFinal dt memory seen).2.solver.tableau =
      solver.tableau := by
  rw [integrate]
  split
  · exact tableau_continueRun f observe tFinal dt budget _
  · rfl

def Run.noted (note : Nat → α → Vector α n → τ → τ) (seen : τ)
    (run : Run σ (List (Nat × α × Vector α n)) α n) : Run σ τ α n :=
  { run with seen := run.seen.foldr (fun call seen ↦ note call.1 call.2.1 call.2.2 seen) seen }

theorem continueRun_noted {note : Nat → α → Vector α n → τ → τ}
    (hobserve : ∀ step t x seen, observe step t x seen = .ok (note step t x seen)) (seen : τ)
    (budget : Nat) (run : Run σ (List (Nat × α × Vector α n)) α n) :
    continueRun f observe tFinal dt budget (run.noted note seen) =
      (continueRun f recordCalls tFinal dt budget run).map id (Run.noted note seen) := by
  induction budget generalizing run with
  | zero =>
    by_cases h : run.unfinished tFinal dt
    · have h' : (run.noted note seen).unfinished tFinal dt := h
      rw [continueRun_zero h, continueRun_zero h']
      rfl
    · have h' : ¬ (run.noted note seen).unfinished tFinal dt := h
      rw [continueRun_of_finished _ h, continueRun_of_finished _ h']
      rfl
  | succ budget ih =>
    have hnext : (run.noted note seen).nextStep f tFinal dt = run.nextStep f tFinal dt := rfl
    by_cases h : run.unfinished tFinal dt
    · have h' : (run.noted note seen).unfinished tFinal dt := h
      cases hstep : (run.nextStep f tFinal dt).outcome with
      | error e =>
        rw [continueRun_of_error budget h hstep,
          continueRun_of_error budget h' (hnext ▸ hstep), hnext]
        rfl
      | ok _ =>
        rw [continueRun_of_ok budget h hstep, continueRun_of_ok budget h' (hnext ▸ hstep), hnext]
        simp only [hobserve, recordCalls_eq]
        let next := run.afterStep (run.nextStep f tFinal dt)
        exact ih { next with
          steps := run.steps + 1, seen := (run.steps + 1, next.t, next.x) :: run.seen }
    · have h' : ¬ (run.noted note seen).unfinished tFinal dt := h
      rw [continueRun_of_finished _ h, continueRun_of_finished _ h']
      rfl

theorem integrate_noted {note : Nat → α → Vector α n → τ → τ}
    (hobserve : ∀ step t x seen, observe step t x seen = .ok (note step t x seen))
    (solver : Solver α) (budget : Nat) (x : Vector α n) (memory : σ) (seen : τ) :
    solver.integrate budget f observe x tFinal dt memory seen =
      (solver.integrate budget f recordCalls x tFinal dt memory []).map id
        (Run.noted note seen) := by
  rw [integrate, integrate]
  split
  · exact continueRun_noted hobserve seen budget
      { solver, x, t := 0, steps := 0, memory, seen := [] }
  · rfl

end Loop

variable [Scalar α] {f : RateFunction ε σ α} {F : Vector α n → Vector α n}
  {observe : Observer τ α n} {note : Nat → α → Vector α n → τ → τ} {tFinal dt : α}
  {I : Nat → α → Vector α n → τ → Prop}

theorem continueRun_induction (hf : f.Computes F)
    (hobserve : ∀ step t x seen, observe step t x seen = .ok (note step t x seen))
    {T : Tableau α} (hstep : RunInvariant T F note tFinal dt I)
    (budget : Nat) (run : Run σ τ α n) (hrun : run.solver.tableau = T)
    (hI : I run.steps run.t run.x run.seen) :
    ∃ outcome final, continueRun f observe tFinal dt budget run = (outcome, final) ∧
      (outcome = .ok ⟨final.steps, final.t⟩ ∨ outcome = .error (.broken .stepBudgetSpent)) ∧
      I final.steps final.t final.x final.seen := by
  induction budget generalizing run with
  | zero =>
    by_cases hunfinished : run.unfinished tFinal dt
    · exact ⟨_, run, continueRun_zero hunfinished, Or.inr rfl, hI⟩
    · exact ⟨_, run, continueRun_of_finished _ hunfinished, Or.inl rfl, hI⟩
  | succ budget ih =>
    by_cases hunfinished : run.unfinished tFinal dt
    · obtain ⟨hok, htableau, hx, ht⟩ :=
        run.solver.step_eq hf run.x run.t (min dt (tFinal - run.t)) run.memory
      rw [hrun] at htableau hx
      rw [continueRun_of_ok budget hunfinished hok]
      simp only [hobserve]
      refine ih _ htableau ?_
      simp only [Run.afterStep, Run.nextStep, hx, ht]
      exact hstep _ _ _ _ hI hunfinished
    · exact ⟨_, run, continueRun_of_finished _ hunfinished, Or.inl rfl, hI⟩

theorem integrate_induction (hf : f.Computes F)
    (hobserve : ∀ step t x seen, observe step t x seen = .ok (note step t x seen))
    (hdt : 0 < dt) (solver : Solver α) (hstep : RunInvariant solver.tableau F note tFinal dt I)
    (budget : Nat) (x : Vector α n) (memory : σ) (seen : τ) (hI : I 0 0 x seen) :
    ∃ outcome final,
      solver.integrate budget f observe x tFinal dt memory seen = (outcome, final) ∧
      (outcome = .ok ⟨final.steps, final.t⟩ ∨ outcome = .error (.broken .stepBudgetSpent)) ∧
      I final.steps final.t final.x final.seen := by
  simp only [integrate, if_pos hdt]
  exact continueRun_induction hf hobserve hstep budget _ rfl hI

/-- A property of states that every step keeps holds at every observer call and at the end. -/
theorem integrate_recordCalls (hf : f.Computes F) (hdt : 0 < dt) (solver : Solver α)
    {P : Vector α n → Prop} (hstep : ∀ t x, P x → t < tFinal - 1e-8 * dt →
      P (solver.tableau.stepMap F (min dt (tFinal - t)) x))
    (budget : Nat) {x : Vector α n} (memory : σ) (hx : P x) : ∃ outcome final,
      solver.integrate budget f recordCalls x tFinal dt memory [] = (outcome, final) ∧
      (outcome = .ok ⟨final.steps, final.t⟩ ∨ outcome = .error (.broken .stepBudgetSpent)) ∧
      P final.x ∧ ∀ call ∈ final.seen, P call.2.2 := by
  refine integrate_induction hf (I := fun _ _ x calls ↦ P x ∧ ∀ call ∈ calls, P call.2.2)
    recordCalls_eq hdt solver ?_ budget x memory [] ⟨hx, fun call h ↦ absurd h List.not_mem_nil⟩
  intro steps t y calls ⟨hy, hcalls⟩ hunfinished size y'
  have hy' : P y' := hstep t y hy hunfinished
  exact ⟨hy', List.forall_mem_cons.2 ⟨hy', hcalls⟩⟩

theorem isChain_integrate (hf : f.Computes F) (hdt : 0 < dt) (solver : Solver α)
    {R : Vector α n → Vector α n → Prop} (hstep : ∀ t x, t < tFinal - 1e-8 * dt →
      R x (solver.tableau.stepMap F (min dt (tFinal - t)) x))
    (budget : Nat) (x : Vector α n) (memory : σ) : ∃ outcome final,
      solver.integrate budget f recordCalls x tFinal dt memory [] = (outcome, final) ∧
      (outcome = .ok ⟨final.steps, final.t⟩ ∨ outcome = .error (.broken .stepBudgetSpent)) ∧
      (x :: final.seen.reverse.map (·.2.2)).IsChain R := by
  -- The latest call comes first, so the states run backwards from the present one.
  have hinvariant : RunInvariant solver.tableau F (fun step t x calls ↦ (step, t, x) :: calls)
      tFinal dt fun _ _ y calls ↦ (calls.map (·.2.2) ++ [x]).head? = some y ∧
        (calls.map (·.2.2) ++ [x]).IsChain (flip R) := by
    intro steps t y calls ⟨hhead, hchain⟩ hunfinished size y'
    refine ⟨rfl, List.isChain_cons.2 ⟨fun z hz ↦ ?_, hchain⟩⟩
    obtain rfl : y = z := Option.some.inj (hhead.symm.trans hz)
    exact hstep t y hunfinished
  obtain ⟨outcome, final, hrun, houtcome, -, hchain⟩ :=
    integrate_induction hf recordCalls_eq hdt solver hinvariant budget x memory []
      ⟨rfl, List.isChain_singleton x⟩
  refine ⟨outcome, final, hrun, houtcome, ?_⟩
  rw [← List.isChain_reverse, List.reverse_cons, ← List.map_reverse, List.reverse_reverse]
  exact hchain

end Solver

theorem cut_step_pos {F : Type} [Field F] [LinearOrder F] [IsStrictOrderedRing F]
    {t tFinal dt : F} (hdt : 0 < dt) (h : t < tFinal - 1e-8 * dt) : 0 < min dt (tFinal - t) := by
  have htolerance : 0 ≤ 1e-8 * dt := mul_nonneg (by norm_num) hdt.le
  exact lt_min hdt (by linarith)

end GraphTransport
