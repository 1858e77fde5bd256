import GraphTransport.Periodic.Assembly
import GraphTransport.Graph.TimeStep
import GraphTransport.Graph.TotalMass
import GraphTransport.RungeKutta.Integrate
import GraphTransport.Settings.Basic

namespace GraphTransport

inductive LogEntry (α : Type) where
  | limitExceeded (dt limit : α) (scheme : Scheme)
  | progress (step : Nat) (time least greatest : α)
deriving Repr

def LogEntry.text {α : Type} (write round : α → String) : LogEntry α → String
  | limitExceeded dt limit scheme =>
    "Time step " ++ write dt ++ " exceeds the bounds-preserving limit " ++ write limit ++
      " of the " ++ scheme.name ++ " scheme"
  | progress step time least greatest =>
    "time step: " ++ toString step ++ ", time: " ++ round time ++ ", min: " ++ round least ++
      ", max: " ++ round greatest

section Extremes

variable {α : Type} [Scalar α]

/-- The least component; of two that compare with nothing the later one. -/
def leastComponent (x : Array α) : α :=
  match x.toList with
  | [] => 0
  | first :: rest => rest.foldl (fun a b ↦ if a ≤ b then a else b) first

def greatestComponent (x : Array α) : α :=
  match x.toList with
  | [] => 0
  | first :: rest => rest.foldl (fun a b ↦ if b ≤ a then a else b) first

end Extremes

structure Table (α : Type) where
  header : List String
  rows : List (List α)
deriving Repr

def Table.lines {α : Type} (write : α → String) (table : Table α) : List String :=
  String.intercalate "," table.header ::
    table.rows.map fun row ↦ String.intercalate "," (row.map write)

def stateTable {α : Type} (coordinates state : Array α) (numVars : Nat) :
    Except Violation (Table α) := do
  let n := coordinates.size
  let rows ← (List.range n).mapM fun i ↦ do
    let x ← fetch coordinates i
    let values ← (List.range numVars).mapM fun var ↦ fetch state (i + var * n)
    return x :: values
  return { header := "x" :: (List.range numVars).map fun var ↦ "u" ++ toString var, rows }

structure Simulation (α : Type) where
  log : List (LogEntry α)
  summary : IntegrationReport α
  state : Array α
  table : Table α

namespace Simulation

variable {α : Type}

def limitWarning [Scalar α] (s : Settings α) (limit : Option α) :
    List (LogEntry α) :=
  match limit with
  | some limit =>
    if s.scheme.keepsBounds ∧ limit < s.dt then [.limitExceeded s.dt limit s.scheme] else []
  | none => []

def reportProgress [Scalar α] {n : Nat} (reportInterval : Nat) :
    Observer (List (LogEntry α)) α n :=
  fun step time x log ↦
    if reportInterval = 0 then
      .error .remainderByZero
    else if step % reportInterval = 0 then
      .ok (.progress step time (leastComponent x.toArray) (greatestComponent x.toArray) :: log)
    else
      .ok log

variable [ExpScalar α]

def run (sizes : SizeArithmetic) (budget : Nat) (s : Settings α) :
    Except (Fault EvaluationError) (Simulation α) := do
  let segment ← Fault.ofViolation (PeriodicSegment.unit s.numCells)
  let graph ← Fault.ofViolation (segment.advectionOperator s.problem.velocity)
  let limit ← Fault.ofViolation graph.stableTimeStep?
  let evolution ← Fault.ofRefusal (Evolution.create sizes s.scheme graph s.problem.numVars)
  let evolution := evolution.withExecution s.execution
  let u ← Fault.ofViolation (s.problem.initialState sizes segment)
  let _ ← graph.totalMass sizes u s.problem.numVars
  let solver := Solver.ofTableau s.odeMethod.tableau
  let (result, final) := solver.integrate budget (.ofEvolution evolution)
    (reportProgress s.reportInterval) u.toVector s.tFinal s.dt #[] (limitWarning s limit).reverse
  let summary ← result
  let state := final.x.toArray
  let _ ← graph.totalMass sizes state s.problem.numVars
  let coordinates ← Fault.ofViolation (segment.nodeCoordinates sizes)
  let table ← Fault.ofViolation (stateTable coordinates state s.problem.numVars)
  return { log := final.seen.reverse, summary, state, table }

end Simulation

end GraphTransport
