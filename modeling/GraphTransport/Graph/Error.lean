namespace GraphTransport

inductive GraphError where
  | notSquare (matrix : String) (numRows numCols : Nat)
  | sparsityMismatch
  | notStructurallySymmetric (row column : Nat)
  | massNotSymmetric (row column : Nat)
  | lumpedMassLength (expected actual : Nat)
  | nonPositiveLumpedMass (dof : Nat)
deriving DecidableEq, Repr

namespace GraphError

def name : GraphError → String
  | notSquare .. => "NotSquare"
  | sparsityMismatch => "SparsityMismatch"
  | notStructurallySymmetric .. => "NotStructurallySymmetric"
  | massNotSymmetric .. => "MassNotSymmetric"
  | lumpedMassLength .. => "LumpedMassLength"
  | nonPositiveLumpedMass .. => "NonPositiveLumpedMass"

def message : GraphError → String
  | notSquare matrix numRows numCols =>
    "The " ++ matrix ++ " matrix must be square, but has dimensions " ++ toString numRows ++ "x" ++
      toString numCols ++ "."
  | sparsityMismatch =>
    "The mass and advection matrices must have identical sparsity patterns."
  | notStructurallySymmetric i j =>
    "Sparsity pattern is not structurally symmetric: (" ++ toString i ++ ", " ++ toString j ++
      ") is stored, but (" ++ toString j ++ ", " ++ toString i ++ ") is not."
  | massNotSymmetric i j =>
    "Mass matrix is not symmetric: M(" ++ toString i ++ ", " ++ toString j ++
      ") differs from M(" ++ toString j ++ ", " ++ toString i ++ ")."
  | lumpedMassLength expected actual =>
    "Lumped mass vector has length " ++ toString actual ++ ", expected " ++ toString expected ++ "."
  | nonPositiveLumpedMass dof =>
    "Lumped mass of DOF " ++ toString dof ++ " is not strictly positive."

def fields : GraphError → List (String × String)
  | notSquare matrix numRows numCols =>
    [("matrix", "\"" ++ matrix ++ "\""), ("nrows", toString numRows), ("ncols", toString numCols)]
  | sparsityMismatch => []
  | notStructurallySymmetric i j | massNotSymmetric i j =>
    [("row", toString i), ("col", toString j)]
  | lumpedMassLength expected actual =>
    [("expected", toString expected), ("actual", toString actual)]
  | nonPositiveLumpedMass dof => [("dof", toString dof)]

def summary (e : GraphError) : String :=
  match e.fields with
  | [] => e.name
  | fields =>
    e.name ++ " \x7b " ++ String.intercalate ", " (fields.map fun (label, value) ↦
      label ++ ": " ++ value) ++ " \x7d"

end GraphError

end GraphTransport
