import GraphTransport.Problem
import GraphTransport.Scheme.Basic
import GraphTransport.Evolution.Schedule
import GraphTransport.RungeKutta.Methods

namespace GraphTransport

structure Settings (α : Type) where
  problem : Problem
  scheme : Scheme
  odeMethod : OdeMethod
  numCells : Nat
  tFinal : α
  dt : α
  reportInterval : Nat
  execution : Execution
deriving DecidableEq, Repr

inductive InvalidSettings (α : Type) where
  | timeStepNotPositive (dt : α)
  | finalTimeNegative (tFinal : α)
  | noReportInterval
  | tooFewCells (numCells : Nat)
deriving Repr

def InvalidSettings.message {α : Type} (write : α → String) : InvalidSettings α → String
  | timeStepNotPositive dt => "time step must be positive, got " ++ write dt
  | finalTimeNegative tFinal => "final time must be non-negative, got " ++ write tFinal
  | noReportInterval => "number of visualization steps must be positive"
  | tooFewCells numCells =>
    "periodic segment needs at least 2 cells, got " ++ toString numCells

namespace Settings

variable {α : Type} [Scalar α]

def default : Settings α where
  problem := .default
  scheme := .default
  odeMethod := .default
  numCells := 64
  tFinal := 1.0
  dt := 0.001
  reportInterval := 10
  execution := .default

/-- Checks what a run relies on. A number that compares with nothing is refused as well. -/
def validate (s : Settings α) : Except (InvalidSettings α) Unit :=
  if ¬ 0 < s.dt then .error (.timeStepNotPositive s.dt)
  else if ¬ 0 ≤ s.tFinal then .error (.finalTimeNegative s.tFinal)
  else if s.reportInterval = 0 then .error .noReportInterval
  else if s.numCells < 2 then .error (.tooFewCells s.numCells)
  else .ok ()

end Settings

end GraphTransport
