import GraphTransport.Periodic.Segment
import GraphTransport.Text.Blank
import GraphTransport.UnknownName

namespace GraphTransport

inductive Problem where
  | bumpAndStep
  | gaussian
deriving DecidableEq, Repr, Inhabited

namespace Problem

def all : List Problem := [bumpAndStep, gaussian]

def default : Problem := bumpAndStep

def name : Problem → String
  | bumpAndStep => "bump-and-step"
  | gaussian => "gaussian"

def aliases : Problem → List String
  | bumpAndStep => ["bump-and-step", "bump_and_step", "0"]
  | gaussian => ["gaussian", "2"]

def parse (text : String) : Except UnknownName Problem :=
  match all.find? fun p ↦ p.aliases.contains (canonicalName text) with
  | some p => .ok p
  | none => .error (.problem text)

def numVars : Problem → Nat
  | bumpAndStep => 1
  | gaussian => 2

def velocity {α : Type} [Scalar α] (_ : Problem) : α := 1

section InitialData

variable {α : Type} [ExpScalar α]

def bumpAndStepValue (x : α) : α :=
  if 0.5 < x ∧ x < 0.9 then
    ExpScalar.exp 10.0 * ExpScalar.exp (1.0 / (0.5 - x)) * ExpScalar.exp (1.0 / (x - 0.9))
  else if 0.2 < x ∧ x < 0.4 then
    1.0
  else
    0.0

def gaussianValue (length x : α) : α :=
  let center := 0.5 * length
  let reference := 2.0 * (x - center) / length
  let distance := reference - 0.5
  ExpScalar.exp (-40.0 * (distance * distance))

def initialValue (problem : Problem) (segment : PeriodicSegment α) (x : α) : α :=
  match problem with
  | bumpAndStep => bumpAndStepValue x
  | gaussian => gaussianValue segment.length x

/-- The initial state over the nodes of a segment: every even variable is the first one, every odd
variable its negative. -/
def initialState (sizes : SizeArithmetic) (problem : Problem) (segment : PeriodicSegment α) :
    Except Violation (Array α) := do
  let coordinates ← segment.nodeCoordinates sizes
  let first := coordinates.map (problem.initialValue segment)
  let length ← sizes.mul problem.numVars first.size
  sizes.reserve length
  let state ← (List.range length).mapM fun k ↦ do
    if first.size = 0 then
      throw .remainderByZero
    let value ← fetch first (k % first.size)
    return if (k / first.size) % 2 = 0 then value else -value
  return state.toArray

end InitialData

end Problem

end GraphTransport
