import GraphTransport.CommandLine.Run

namespace GraphTransport

def readFile? (path : String) : IO (Option ByteArray) := do
  try
    return some (← IO.FS.readBinFile path)
  catch _ =>
    return none

/-- Whether a file can be created; it is empty then. -/
def create? (path : String) : IO Bool := do
  try
    IO.FS.writeFile path ""
    return true
  catch _ =>
    return false

def helpLines : List String :=
  ["Usage: advection_1d [OPTIONS]",
    "",
    "Options:",
    "  -c, --config <FILE>            JSON settings file; options take precedence",
    "  -p, --problem <PROBLEM>        bump-and-step (0) or gaussian (2)",
    "  -s, --scheme <SCHEME>          low-order (1), high-order (2) or mcl (3)",
    "      --ode-solver <ODE_SOLVER>  forward-euler (1), heun (2), ssp-rk3 (3), rk4 (4) or rk6 (6)",
    "  -n, --cells <CELLS>            number of cells of the periodic mesh",
    "      --t-final <T_FINAL>        final time",
    "      --dt <DT>                  time step",
    "      --vis-steps <VIS_STEPS>    number of time steps between progress reports",
    "      --parallel                 evaluate rows in parallel",
    "  -o, --output <FILE>            file for the final state [default: advection_1d.csv]"]

def program (args : List String) : IO UInt32 := do
  let options := (Options.parse args).toOption
  let config ←
    match options.bind (·.config) with
    | some path => readFile? path
    | none => pure none
  let outcome := runCommandLine (fun _ ↦ config) (fun _ ↦ true) args
  if Options.parse args matches .error .help then
    for line in helpLines do
      IO.println line
  if Options.parse args matches .error .usage then
    IO.eprintln "error: the arguments are wrong; --help lists the options"
  for line in outcome.log do
    IO.println line
  if let some message := outcome.error then
    IO.eprintln message
  match outcome.output with
  | some (path, lines) =>
    if ← create? path then
      IO.FS.writeFile path (String.join (lines.map (· ++ "\n")))
      return 0
    else
      IO.eprintln ("Error: failed to create output file " ++ path)
      return 1
  | none => return UInt32.ofNat outcome.exitCode

end GraphTransport

def main (args : List String) : IO UInt32 := GraphTransport.program args
