import GraphTransport.RungeKutta.Step

namespace GraphTransport

abbrev Observer (τ α : Type) (n : Nat) := Nat → α → Vector α n → τ → Except Violation τ

structure IntegrationReport (α : Type) where
  steps : Nat
  finalTime : α
deriving Repr

namespace Solver

variable {ε σ τ α : Type} {n : Nat}

structure Run (σ τ α : Type) (n : Nat) where
  solver : Solver α
  x : Vector α n
  t : α
  steps : Nat
  memory : σ
  seen : τ

variable [Scalar α]

def Run.unfinished (run : Run σ τ α n) (tFinal dt : α) : Prop := run.t < tFinal - 1e-8 * dt

instance (run : Run σ τ α n) (tFinal dt : α) : Decidable (run.unfinished tFinal dt) :=
  inferInstanceAs (Decidable (run.t < tFinal - 1e-8 * dt))

def continueRun (f : RateFunction ε σ α) (observe : Observer τ α n) (tFinal dt : α) :
    Nat → Run σ τ α n → Except (Fault ε) (IntegrationReport α) × Run σ τ α n
  | budget, run =>
    if run.unfinished tFinal dt then
      match budget with
      | 0 => (.error (.broken .stepBudgetSpent), run)
      | budget + 1 =>
        let stepped := run.solver.step f run.x run.t (min dt (tFinal - run.t)) run.memory
        let run := { run with
          solver := stepped.solver, x := stepped.x, t := stepped.t, memory := stepped.memory }
        match stepped.outcome with
        | .error e => (.error e, run)
        | .ok () =>
          let run := { run with steps := run.steps + 1 }
          match observe run.steps run.t run.x run.seen with
          | .error violation => (.error (.broken violation), run)
          | .ok seen => continueRun f observe tFinal dt budget { run with seen }
    else
      (.ok ⟨run.steps, run.t⟩, run)

/-- Integrates `x` from time zero to `tFinal` in steps of a positive size `dt`, and in no more steps
than the budget has. -/
def integrate (budget : Nat) (solver : Solver α) (f : RateFunction ε σ α)
    (observe : Observer τ α n) (x : Vector α n) (tFinal dt : α) (memory : σ) (seen : τ) :
    Except (Fault ε) (IntegrationReport α) × Run σ τ α n :=
  let run : Run σ τ α n := { solver, x, t := 0, steps := 0, memory, seen }
  if 0 < dt then continueRun f observe tFinal dt budget run
  else (.error (.broken .timeStepNotPositive), run)

end Solver

end GraphTransport
