namespace GraphTransport

inductive UnknownName where
  | scheme (text : String)
  | problem (text : String)
  | odeMethod (text : String)
deriving DecidableEq, Repr

namespace UnknownName

def name : UnknownName → String
  | scheme _ => "UnknownScheme"
  | problem _ => "UnknownProblem"
  | odeMethod _ => "UnknownOdeSolver"

def message : UnknownName → String
  | scheme text =>
    "Unknown scheme '" ++ text ++ "'. Expected one of: low-order (1), high-order (2), mcl (3)."
  | problem text =>
    "Unknown problem '" ++ text ++ "'. Expected one of: bump-and-step (0), gaussian (2)."
  | odeMethod text =>
    "Unknown ODE solver '" ++ text ++
      "'. Expected one of: forward-euler (1), heun (2), ssp-rk3 (3), rk4 (4), rk6 (6)."

end UnknownName

end GraphTransport
