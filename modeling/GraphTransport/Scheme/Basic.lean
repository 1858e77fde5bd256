import GraphTransport.Text.Blank
import GraphTransport.UnknownName

namespace GraphTransport

inductive Scheme where
  | lowOrder
  | highOrder
  /-- Convex limiting of the antidiffusive fluxes between the other two. -/
  | mcl
deriving DecidableEq, Repr, Inhabited

namespace Scheme

def all : List Scheme := [lowOrder, highOrder, mcl]

def default : Scheme := lowOrder

def name : Scheme → String
  | lowOrder => "low-order"
  | highOrder => "high-order"
  | mcl => "mcl"

def aliases : Scheme → List String
  | lowOrder => ["low-order", "low_order", "lo", "1"]
  | highOrder => ["high-order", "high_order", "high-order-target", "ho", "2"]
  | mcl => ["mcl", "3"]

def keepsBounds : Scheme → Bool
  | lowOrder | mcl => true
  | highOrder => false

def needsLowOrderRates : Scheme → Bool
  | lowOrder => false
  | highOrder | mcl => true

def parse (text : String) : Except UnknownName Scheme :=
  match all.find? fun s ↦ s.aliases.contains (canonicalName text) with
  | some s => .ok s
  | none => .error (.scheme text)

end Scheme

end GraphTransport
