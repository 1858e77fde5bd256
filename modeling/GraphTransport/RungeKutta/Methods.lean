import GraphTransport.RungeKutta.Tableau
import GraphTransport.Text.Blank
import GraphTransport.UnknownName

namespace GraphTransport

inductive OdeMethod where
  | forwardEuler
  | heun
  | sspRk3
  | rk4
  /-- Eight stages, sixth order, after Verner. -/
  | rk6
deriving DecidableEq, Repr, Inhabited

namespace OdeMethod

def all : List OdeMethod := [forwardEuler, heun, sspRk3, rk4, rk6]

def default : OdeMethod := heun

def name : OdeMethod → String
  | forwardEuler => "forward-euler"
  | heun => "heun"
  | sspRk3 => "ssp-rk3"
  | rk4 => "rk4"
  | rk6 => "rk6"

def aliases : OdeMethod → List String
  | forwardEuler => ["forward-euler", "forward_euler", "euler", "1"]
  | heun => ["heun", "rk2", "2"]
  | sspRk3 => ["ssp-rk3", "ssp_rk3", "rk3", "3"]
  | rk4 => ["rk4", "4"]
  | rk6 => ["rk6", "6"]

def parse (text : String) : Except UnknownName OdeMethod :=
  match all.find? fun k ↦ k.aliases.contains (canonicalName text) with
  | some k => .ok k
  | none => .error (.odeMethod text)

/-- Whether a step is a convex combination of explicit Euler steps, so that it keeps the bounds
that those keep. -/
def isStrongStabilityPreserving : OdeMethod → Bool
  | forwardEuler | heun | sspRk3 => true
  | rk4 | rk6 => false

end OdeMethod

namespace Tableau

variable {α : Type} [Scalar α]

def forwardEuler : Tableau α where
  name := "forward-euler"
  numStages := 1
  coefficients := #v[#v[0]]
  weights := #v[1]

def heun : Tableau α where
  name := "heun"
  numStages := 2
  coefficients := #v[#v[0, 0], #v[1, 0]]
  weights := #v[0.5, 0.5]

def sspRk3 : Tableau α where
  name := "ssp-rk3"
  numStages := 3
  coefficients := #v[#v[0, 0, 0], #v[1, 0, 0], #v[0.25, 0.25, 0]]
  weights := #v[1.0 / 6.0, 1.0 / 6.0, 2.0 / 3.0]

def classicRk4 : Tableau α where
  name := "rk4"
  numStages := 4
  coefficients := #v[#v[0, 0, 0, 0], #v[0.5, 0, 0, 0], #v[0, 0.5, 0, 0], #v[0, 0, 1, 0]]
  weights := #v[1.0 / 6.0, 1.0 / 3.0, 1.0 / 3.0, 1.0 / 6.0]

def vernerRk6 : Tableau α where
  name := "rk6"
  numStages := 8
  coefficients := #v[
    #v[0, 0, 0, 0, 0, 0, 0, 0],
    #v[0.06, 0, 0, 0, 0, 0, 0, 0],
    #v[0.019239962962962962962962962962962962962963,
      0.076693370370370370370370370370370370370370, 0, 0, 0, 0, 0, 0],
    #v[0.035975, 0, 0.107925, 0, 0, 0, 0, 0],
    #v[1.318683415233148260919747276431735612861, 0,
      -5.042058063628562225427761634715637693344,
      4.220674648395413964508014358283902080483, 0, 0, 0, 0],
    #v[-41.87259166432751461803757780644346812905, 0,
      159.4325621631374917700365669070346830453,
      -122.1192135650100309202516203389242140663,
      5.531743066200053768252631238332999150076, 0, 0, 0],
    #v[-54.43015693531650433250642051294142461271, 0,
      207.0672513650184644273657173866509835987,
      -158.6108137845899991828742424365058599469,
      6.991816585950242321992597280791793907096,
      -0.01859723106220323397765171799549294623692, 0, 0],
    #v[-54.66374178728197680241215648050386959351, 0,
      207.9528062553893734515824816699834244238,
      -159.2889574744995071508959805871426654216,
      7.018743740796944434698170760964252490817,
      -0.01833878590504572306472782005141738268361,
      -0.0005119484997882099077875432497245168395840, 0]]
  weights := #v[0.03438957868357036009278820124728322386520, 0, 0,
    0.2582624555633503404659558098586120858767, 0.4209371189673537150642551514069801967032,
    4.405396469669310170148836816197095664891, -176.4831190242986576151740942499002125029,
    172.3641334014150730294022582711902413315]

end Tableau

def OdeMethod.tableau {α : Type} [Scalar α] : OdeMethod → Tableau α
  | forwardEuler => .forwardEuler
  | heun => .heun
  | sspRk3 => .sspRk3
  | rk4 => .classicRk4
  | rk6 => .vernerRk6

end GraphTransport
