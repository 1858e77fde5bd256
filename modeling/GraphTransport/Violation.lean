import GraphTransport.Graph.Error

namespace GraphTransport

/-- A condition that a caller must guarantee, and did not. -/
inductive Violation where
  | indexOutOfBounds
  | productOverflow
  | capacityExceeded
  | remainderByZero
  | stateLength
  | lowOrderRateLength
  | outputLength
  | edgesExhausted
  | noStages
  | tableauDimensions
  | tableauNotStrictlyLower
  | timeStepNotPositive
  | stepBudgetSpent
  | tooFewCells
  | lengthNotPositive
  | invalidPeriodicOperator (cause : GraphError)
  | invalidRandomOperator (cause : GraphError)
  | tooFewNodes
  | summandDimensions
  | sliceLengths
  | sliceDifference
  | notRefused (expression : String)
deriving DecidableEq, Repr

def Violation.message : Violation → String
  | indexOutOfBounds => "index out of bounds"
  | productOverflow => "attempt to multiply with overflow"
  | capacityExceeded => "capacity overflow"
  | remainderByZero => "attempt to calculate the remainder with a divisor of zero"
  | stateLength => "State length must match number of DOFs."
  | lowOrderRateLength => "Low-order rate length must match number of DOFs."
  | outputLength => "Output length must match number of DOFs."
  | edgesExhausted => "Internal error: edges must follow the off-diagonal columns"
  | noStages => "Method must have at least one stage."
  | tableauDimensions => "Tableau dimensions must be consistent."
  | tableauNotStrictlyLower => "Tableau must be strictly lower triangular for an explicit method."
  | timeStepNotPositive => "Time step must be positive."
  | stepBudgetSpent => "Step budget is spent."
  | tooFewCells => "Periodic segment needs at least two cells."
  | lengthNotPositive => "Segment length must be positive."
  | invalidPeriodicOperator cause =>
    "Internal error: assembled periodic operator must be a valid graph: " ++ cause.summary
  | invalidRandomOperator cause =>
    "Internal error: generated graph operator must be valid: " ++ cause.summary
  | tooFewNodes => "Graph needs room for at least three nodes."
  | summandDimensions => "Matrix addition/subtraction dimensions mismatch."
  | sliceLengths => "Slices must have the same length."
  | sliceDifference => "assertion failed: approx_eq"
  | notRefused expression => "assert_panics!(" ++ expression ++ ") failed."

inductive Fault (ε : Type) where
  | refused (error : ε)
  | broken (violation : Violation)
deriving DecidableEq, Repr

def Fault.ofViolation {ε β : Type} : Except Violation β → Except (Fault ε) β :=
  Except.mapError .broken

theorem Fault.ofViolation_ok {ε β : Type} (b : β) :
    (ofViolation (.ok b) : Except (Fault ε) β) = .ok b := rfl

def Fault.ofRefusal {ε β : Type} : Except ε β → Except (Fault ε) β :=
  Except.mapError .refused

@[inline] def fetch {α : Type} (xs : Array α) (i : Nat) : Except Violation α :=
  match xs[i]? with
  | some x => .ok x
  | none => .error .indexOutOfBounds

theorem fetch_eq_ok_iff {α : Type} {xs : Array α} {i : Nat} {x : α} :
    fetch xs i = .ok x ↔ xs[i]? = some x := by
  unfold fetch
  cases xs[i]? <;> simp

theorem fetch_of_lt {α : Type} {xs : Array α} {i : Nat} (h : i < xs.size) :
    fetch xs i = .ok xs[i] := by
  simp [fetch, h]

end GraphTransport
