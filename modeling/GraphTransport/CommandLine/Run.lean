import GraphTransport.CommandLine.Options
import GraphTransport.Settings.Stored
import GraphTransport.Simulation.Basic
import GraphTransport.Scalar.Binary64
import GraphTransport.Decimal.Fixed

namespace GraphTransport

structure Outcome where
  exitCode : Nat
  log : List String
  error : Option String
  output : Option (String × List String)
deriving Repr

/-- The settings of a run: the stored ones, with the choices of the command line in place, if they
can be read and pass the checks. Otherwise the sentence that reports why not. -/
def Options.settings (o : Options) (readFile : String → Option ByteArray) :
    Except String (Settings Float) := do
  let stored ←
    match o.config with
    | some path =>
      (Settings.ofFile .binary64 path (readFile path)).mapError (·.message)
    | .none => .ok .default
  (o.overrides.resolve stored).mapError (·.message Decimal.Style.plain.text)

def faultMessage : Fault EvaluationError → String
  | .refused e => e.message
  | .broken v => v.message

def faultExitCode : Fault EvaluationError → Nat
  | .refused _ => 1
  | .broken _ => 101

/-- More steps than a run takes, since steps are counted in words of 64 bits. -/
def stepBudget : Nat := Nat.pow 2 64

def runCommandLine (readFile : String → Option ByteArray) (canCreate : String → Bool)
    (args : List String) : Outcome :=
  match Options.parse args with
  | .error .usage => ⟨2, [], none, none⟩
  | .error .help | .error .version => ⟨0, [], none, none⟩
  | .ok options =>
    match options.settings readFile with
    | .error message => ⟨1, [], some ("Error: " ++ message), none⟩
    | .ok settings =>
      match Simulation.run .word64 stepBudget settings with
      | .error fault => ⟨faultExitCode fault, [], some ("Error: " ++ faultMessage fault), none⟩
      | .ok simulation =>
        let log := simulation.log.map (·.text Decimal.Style.plain.text (Decimal.fixed 6))
        let path := options.output.getD Options.defaultOutput
        if canCreate path then
          ⟨0, log, none, some (path, simulation.table.lines Decimal.Style.plain.text)⟩
        else
          ⟨1, log, some ("Error: failed to create output file " ++ path), none⟩

end GraphTransport
