import GraphTransport.Settings.Basic

namespace GraphTransport

structure Overrides (α : Type) where
  problem : Option Problem
  scheme : Option Scheme
  odeMethod : Option OdeMethod
  numCells : Option Nat
  tFinal : Option α
  dt : Option α
  reportInterval : Option Nat
  parallel : Bool
deriving Repr

namespace Overrides

variable {α : Type}

def none : Overrides α where
  problem := .none
  scheme := .none
  odeMethod := .none
  numCells := .none
  tFinal := .none
  dt := .none
  reportInterval := .none
  parallel := false

def apply (o : Overrides α) (s : Settings α) : Settings α where
  problem := o.problem.getD s.problem
  scheme := o.scheme.getD s.scheme
  odeMethod := o.odeMethod.getD s.odeMethod
  numCells := o.numCells.getD s.numCells
  tFinal := o.tFinal.getD s.tFinal
  dt := o.dt.getD s.dt
  reportInterval := o.reportInterval.getD s.reportInterval
  execution := if o.parallel then .parallel else s.execution

def resolve [Scalar α] (o : Overrides α) (stored : Settings α) :
    Except (InvalidSettings α) (Settings α) := do
  let settings := o.apply stored
  settings.validate
  return settings

end Overrides

end GraphTransport
