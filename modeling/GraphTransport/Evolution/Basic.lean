import GraphTransport.Evolution.Schedule
import GraphTransport.Evolution.Error
import GraphTransport.Scheme.Rate
import GraphTransport.Sizes

namespace GraphTransport

structure Evolution (α : Type) where
  scheme : Scheme
  graph : GraphOperator α
  numVars : Nat
  execution : Execution
  sizes : SizeArithmetic

structure Evaluated (ε σ α : Type) (k : Nat) where
  outcome : Except (Fault ε) Unit
  rates : Vector α k
  memory : σ

def resized {α : Type} [Zero α] (z : Array α) (n : Nat) : Vector α n :=
  Vector.ofFn fun i ↦ z.getD i 0

/-- The rates of one variable with the values `x`: first the low-order rates into `z`, if the
scheme needs them, then the rates into `y` behind position `base`. -/
def evaluateVariable {α : Type} [Scalar α] {n k : Nat} (scheme : Scheme) (g : GraphOperator α)
    (schedule : Schedule) (x : Array α) (base : Nat) (y : Vector α k) (z : Vector α n) :
    Except Violation (Vector α k × Vector α n) := do
  let z ← if scheme.needsLowOrderRates then schedule.run (g.lowOrderRate x) 0 z else pure z
  let y ← schedule.run (scheme.rowRate g x z.toArray) base y
  return (y, z)

def evaluateVariables {α : Type} [Scalar α] {n k : Nat} (scheme : Scheme) (g : GraphOperator α)
    (schedule : Schedule) (x : Array α) (y : Vector α k) (z : Vector α n) :
    Except Violation (Vector α k × Vector α n) :=
  (List.range (x.size / n)).foldlM (fun (y, z) var ↦
    evaluateVariable scheme g schedule (x.extract (var * n) ((var + 1) * n)) (var * n) y z) (y, z)

def evaluate {α : Type} [Scalar α] (sizes : SizeArithmetic) (scheme : Scheme)
    (g : GraphOperator α) (numVars : Nat) (x : Array α) :
    Except (Fault EvaluationError) (Array α) := do
  if numVars = 0 then
    throw (.refused .noVariables)
  let n := g.numNodes
  let expected ← Fault.ofViolation (sizes.mul numVars n)
  if x.size ≠ expected then
    throw (.refused (.stateSizeMismatch expected x.size))
  Fault.ofViolation do
    let (y, _) ← evaluateVariables scheme g (Execution.serial.schedule n) x
      (Vector.replicate x.size 0) (Vector.replicate n 0)
    return y.toArray

namespace Evolution

variable {α : Type}

def create (sizes : SizeArithmetic) (scheme : Scheme) (graph : GraphOperator α) (numVars : Nat) :
    Except EvaluationError (Evolution α) :=
  if numVars = 0 then .error .noVariables
  else .ok { scheme, graph, numVars, execution := .default, sizes }

def withExecution (e : Evolution α) (execution : Execution) : Evolution α :=
  { e with execution }

def stateSize (e : Evolution α) : Except Violation Nat :=
  e.sizes.mul e.numVars e.graph.numNodes

def reserveRates (e : Evolution α) : Except Violation Nat := do
  let size ← e.stateSize
  e.sizes.reserve size
  return size

variable [Scalar α]

/-- The rates of `x` in place of `y`. The scratch buffer may hold anything; a refusal leaves it and
`y` as they were. -/
def replaceRates {k : Nat} (e : Evolution α) (x : Array α) (y : Vector α k) (scratch : Array α) :
    Evaluated EvaluationError (Array α) α k :=
  let refuse (error : Fault EvaluationError) : Evaluated EvaluationError (Array α) α k :=
    ⟨.error error, y, scratch⟩
  let n := e.graph.numNodes
  match e.stateSize with
  | .error violation => refuse (.broken violation)
  | .ok expected =>
    if x.size ≠ expected then
      refuse (.refused (.stateSizeMismatch expected x.size))
    else if k ≠ expected then
      refuse (.refused (.rateSizeMismatch expected k))
    else if n = 0 then
      ⟨.ok (), y, scratch⟩
    else
      match evaluateVariables e.scheme e.graph (e.execution.schedule n) x y (resized scratch n) with
      | .ok (y, z) => ⟨.ok (), y, z.toArray⟩
      | .error violation => refuse (.broken violation)

def evaluate (e : Evolution α) (x scratch : Array α) :
    Except (Fault EvaluationError) (Array α) × Array α :=
  match e.reserveRates with
  | .error violation => (.error (.broken violation), scratch)
  | .ok size =>
    let result := e.replaceRates x (Vector.replicate size 0) scratch
    (result.outcome.map fun _ ↦ result.rates.toArray, result.memory)

end Evolution

end GraphTransport
