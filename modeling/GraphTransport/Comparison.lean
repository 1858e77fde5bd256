import GraphTransport.Periodic.Segment
import GraphTransport.Decimal.Style
import GraphTransport.Scalar.Binary64

namespace GraphTransport

def eulerStep {α : Type} [Scalar α] (x y : Array α) (dt : α) : Except Violation (Array α) :=
  if x.size = y.size then .ok (x.zipWith (fun xi yi ↦ xi + yi * dt) y)
  else .error .summandDimensions

def maxDifference {α : Type} [Scalar α] (x y : Array α) : α :=
  (x.zipWith (fun a b ↦ Scalar.abs (a - b)) y).foldl max 0

structure Agreement where
  verdict : Except Violation Unit
  printed : List String
deriving Repr

def checkAgreement (x y : Array Float) (tolerance : Float) : Agreement :=
  if x.size ≠ y.size then ⟨.error .sliceLengths, []⟩
  else
    let difference := maxDifference x y
    if difference ≤ tolerance then ⟨.ok (), []⟩
    else
      let list (x : Array Float) : String :=
        "[" ++ String.intercalate ", " (x.toList.map Decimal.Style.listed.text) ++ "]"
      ⟨.error .sliceDifference,
        ["abstol: " ++ Decimal.Style.scientific.text tolerance,
          "left: " ++ list x,
          "right: " ++ list y,
          "max absdiff: " ++ Decimal.Style.scientific.text difference]⟩

def checkRefused {β : Type} (expression : String) (result : Except Violation β) :
    Except Violation Unit :=
  match result with
  | .error _ => .ok ()
  | .ok _ => .error (.notRefused expression)

end GraphTransport
