import GraphTransport.Settings.Overrides
import GraphTransport.Decimal.Parse

namespace GraphTransport

inductive ValueOption where
  | config | problem | scheme | odeMethod | cells | tFinal | dt | reportInterval | output
deriving DecidableEq, Repr

namespace ValueOption

def all : List ValueOption :=
  [config, problem, scheme, odeMethod, cells, tFinal, dt, reportInterval, output]

def longName : ValueOption → String
  | config => "config"
  | problem => "problem"
  | scheme => "scheme"
  | odeMethod => "ode-solver"
  | cells => "cells"
  | tFinal => "t-final"
  | dt => "dt"
  | reportInterval => "vis-steps"
  | output => "output"

def letter? : ValueOption → Option Char
  | config => some 'c'
  | problem => some 'p'
  | scheme => some 's'
  | cells => some 'n'
  | output => some 'o'
  | odeMethod | tFinal | dt | reportInterval => none

end ValueOption

inductive Stop where
  | usage
  | help
  | version
deriving DecidableEq, Repr

structure Options where
  config : Option String
  overrides : Overrides Float
  output : Option String
deriving Repr

namespace Options

def none : Options := ⟨.none, .none, .none⟩

def path? (text : String) : Option String := if text.isEmpty then .none else some text

def once {β : Type} (given : Option β) (value : Option β) : Except Stop (Option β) :=
  match given, value with
  | .none, some v => .ok (some v)
  | _, _ => .error .usage

def assign (o : Options) (text : String) : ValueOption → Except Stop Options
  | .config => do return { o with config := ← once o.config (path? text) }
  | .output => do return { o with output := ← once o.output (path? text) }
  | .problem => do
    return { o with
      overrides.problem := ← once o.overrides.problem (Problem.parse text).toOption }
  | .scheme => do
    return { o with overrides.scheme := ← once o.overrides.scheme (Scheme.parse text).toOption }
  | .odeMethod => do
    return { o with
      overrides.odeMethod := ← once o.overrides.odeMethod (OdeMethod.parse text).toOption }
  | .cells => do
    return { o with
      overrides.numCells := ← once o.overrides.numCells (Decimal.parseCount text) }
  | .tFinal => do
    return { o with overrides.tFinal := ← once o.overrides.tFinal (Decimal.parseDouble text) }
  | .dt => do
    return { o with overrides.dt := ← once o.overrides.dt (Decimal.parseDouble text) }
  | .reportInterval => do
    return { o with
      overrides.reportInterval := ← once o.overrides.reportInterval (Decimal.parseCount text) }

inductive Request where
  | value (option : ValueOption) (attached : Option String)
  | parallel
  | stop (reason : Stop)
deriving Repr

def longRequest (text : List Char) : Request :=
  let name := String.ofList (text.takeWhile (· != '='))
  let attached : Option String :=
    match text.dropWhile (· != '=') with
    | [] => .none
    | _ :: value => some (String.ofList value)
  match ValueOption.all.find? fun o ↦ o.longName == name with
  | some o => .value o attached
  | .none =>
    match attached with
    | some _ => .stop .usage
    | .none =>
      if name = "parallel" then .parallel
      else if name = "help" then .stop .help
      else if name = "version" then .stop .version
      else .stop .usage

def letterRequest (letter : Char) (text : List Char) : Request :=
  match ValueOption.all.find? fun o ↦ o.letter? == some letter with
  | some o =>
    match text with
    | [] => .value o .none
    | '=' :: value => .value o (some (String.ofList value))
    | value => .value o (some (String.ofList value))
  | .none =>
    if letter = 'h' then .stop .help else if letter = 'V' then .stop .version else .stop .usage

def request (arg : String) : Request :=
  match arg.toList with
  | '-' :: '-' :: text => longRequest text
  | '-' :: letter :: text => letterRequest letter text
  | _ => .stop .usage

def isValue (arg : String) : Bool :=
  match arg.toList with
  | '-' :: _ :: _ => false
  | _ => true

/-- Takes in all arguments, the first one first; the first that is wrong decides. Two dashes end the
options, and nothing may follow them. -/
def parseFrom (o : Options) : List String → Except Stop Options
  | [] => .ok o
  | arg :: args =>
    if arg = "--" then
      if args.isEmpty then .ok o else .error .usage
    else
      match request arg with
      | .stop reason => .error reason
      | .parallel =>
        if o.overrides.parallel then .error .usage
        else parseFrom { o with overrides.parallel := true } args
      | .value option (some text) => do
        let o ← o.assign text option
        parseFrom o args
      | .value option .none =>
        match args with
        | [] => .error .usage
        | text :: args =>
          if isValue text then do
            let o ← o.assign text option
            parseFrom o args
          else .error .usage

def parse (args : List String) : Except Stop Options := parseFrom .none args

def defaultOutput : String := "advection_1d.csv"

end Options

end GraphTransport
