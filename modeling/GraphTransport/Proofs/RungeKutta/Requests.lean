import GraphTransport.Proofs.RungeKutta.Step

namespace GraphTransport

variable {ε σ α : Type} {n : Nat}

structure Request (ε α : Type) where
  state : Array α
  outcome : Except (Fault ε) Unit

structure Logged (ε σ α : Type) where
  memory : σ
  requests : List (Request ε α)

def RateFunction.logged (f : RateFunction ε σ α) : RateFunction ε (Logged ε σ α) α where
  stateSize := f.stateSize
  eval x y log :=
    let result := f.eval x y log.memory
    ⟨result.outcome, result.rates, ⟨result.memory, ⟨x.toArray, result.outcome⟩ :: log.requests⟩⟩

namespace Solver

variable [Scalar α]

/-- The evaluations that a step asks for, the latest one first. -/
def requests (solver : Solver α) (f : RateFunction ε σ α) (x : Vector α n) (t dt : α)
    (memory : σ) : List (Request ε α) :=
  (solver.step f.logged x t dt ⟨memory, []⟩).memory.requests

theorem runStages_logged (T : Tableau α) (f : RateFunction ε σ α) (dt : α) (x : Vector α n)
    (stages : List (Fin T.numStages)) (slopes : Vector (Vector α n) T.numStages)
    (log : Logged ε σ α) :
    ∃ requests, (runStages T f.logged dt x stages slopes log).memory.requests =
        requests ++ log.requests ∧
      ∀ e, (runStages T f dt x stages slopes log.memory).outcome = .error e ↔
        ∃ request ∈ requests, request.outcome = .error e := by
  induction stages generalizing slopes log with
  | nil => exact ⟨[], rfl, by simp [runStages]⟩
  | cons s rest ih =>
    let y := T.stageState dt x slopes s
    cases hresult : (f.eval y slopes[s] log.memory).outcome with
    | error e =>
      have hlogged : (f.logged.eval y slopes[s] log).outcome = .error e := hresult
      rw [runStages_cons_of_error rest hresult, runStages_cons_of_error rest hlogged]
      refine ⟨[⟨y.toArray, (f.eval y slopes[s] log.memory).outcome⟩], rfl, fun e ↦ ?_⟩
      simp only [List.mem_singleton, exists_eq_left, hresult]
    | ok _ =>
      have hlogged : (f.logged.eval y slopes[s] log).outcome = .ok () := hresult
      rw [runStages_cons_of_ok rest hresult, runStages_cons_of_ok rest hlogged]
      obtain ⟨requests, hrequests, hfails⟩ := ih
        (slopes.set s (f.eval y slopes[s] log.memory).rates) (f.logged.eval y slopes[s] log).memory
      refine ⟨requests ++ [⟨y.toArray, (f.eval y slopes[s] log.memory).outcome⟩], ?_, ?_⟩
      · rw [List.append_assoc]
        exact hrequests
      · intro e
        refine (hfails e).trans ?_
        simp only [List.mem_append, List.mem_singleton, or_and_right, exists_or, exists_eq_left,
          hresult, reduceCtorEq, or_false]

theorem step_outcome (solver : Solver α) (f : RateFunction ε σ α) (x : Vector α n) (t dt : α)
    (memory : σ) : (solver.step f x t dt memory).outcome =
      (runStages solver.tableau f dt x (List.finRange _) (solver.buffers.slopesOfLength n)
        memory).outcome := by
  unfold step
  dsimp only
  split <;> simp_all

theorem step_memory (solver : Solver α) (f : RateFunction ε σ α) (x : Vector α n) (t dt : α)
    (memory : σ) : (solver.step f x t dt memory).memory =
      (runStages solver.tableau f dt x (List.finRange _) (solver.buffers.slopesOfLength n)
        memory).memory := by
  unfold step
  dsimp only
  split <;> rfl

theorem step_eq_error_iff {solver : Solver α} {f : RateFunction ε σ α} {x : Vector α n} {t dt : α}
    {memory : σ} {e : Fault ε} : (solver.step f x t dt memory).outcome = .error e ↔
      ∃ request ∈ solver.requests f x t dt memory, request.outcome = .error e := by
  obtain ⟨requests, hrequests, hfails⟩ := runStages_logged solver.tableau f dt x (List.finRange _)
    (solver.buffers.slopesOfLength n) ⟨memory, []⟩
  rw [Solver.requests, step_memory, hrequests, step_outcome, hfails, List.append_nil]

theorem step_of_error {solver : Solver α} {f : RateFunction ε σ α} {x : Vector α n} {t dt : α}
    {memory : σ} {e : Fault ε} (h : (solver.step f x t dt memory).outcome = .error e) :
    (solver.step f x t dt memory).x = x ∧ (solver.step f x t dt memory).t = t := by
  unfold step at h ⊢
  dsimp only at h ⊢
  split at h
  · exact ⟨rfl, rfl⟩
  · cases h

end Solver

end GraphTransport
