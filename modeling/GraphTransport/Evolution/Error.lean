namespace GraphTransport

inductive EvaluationError where
  | noVariables
  | stateSizeMismatch (expected actual : Nat)
  | rateSizeMismatch (expected actual : Nat)
deriving DecidableEq, Repr

namespace EvaluationError

def name : EvaluationError → String
  | noVariables => "NoVariables"
  | stateSizeMismatch .. => "StateSizeMismatch"
  | rateSizeMismatch .. => "RateSizeMismatch"

def message : EvaluationError → String
  | noVariables => "Number of solution variables must be positive."
  | stateSizeMismatch expected actual =>
    "State vector has length " ++ toString actual ++ ", expected " ++ toString expected ++ "."
  | rateSizeMismatch expected actual =>
    "Rate vector has length " ++ toString actual ++ ", expected " ++ toString expected ++ "."

end EvaluationError

end GraphTransport
