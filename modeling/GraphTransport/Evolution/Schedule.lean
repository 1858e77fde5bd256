import GraphTransport.Violation

namespace GraphTransport

inductive Execution where
  | serial
  | parallel
deriving DecidableEq, Repr, Inhabited

namespace Execution

def all : List Execution := [serial, parallel]

def default : Execution := serial

def name : Execution → String
  | serial => "serial"
  | parallel => "parallel"

end Execution

abbrev Schedule := List (List Nat)

def rowsPerTask : Nat := 256

def Execution.schedule (execution : Execution) (n : Nat) : Schedule :=
  match execution with
  | .serial => [List.range n]
  | .parallel =>
    let tasks := max 1 (n / rowsPerTask)
    (List.range tasks).map fun t ↦
      let start := t * n / tasks
      List.range' start ((t + 1) * n / tasks - start)

/-- Runs all tasks at the same time, the last one on the calling thread. -/
def runTasks {β γ : Type} (work : β → γ) : List β → List γ
  | [] => []
  | [task] => [work task]
  | task :: rest =>
    let running := Task.spawn fun _ ↦ work task
    let others := runTasks work rest
    running.get :: others

theorem runTasks_eq_map {β γ : Type} (work : β → γ) (tasks : List β) :
    runTasks work tasks = tasks.map work := by
  fun_induction runTasks work tasks with
  | case1 => rfl
  | case2 => rfl
  | case3 task rest _ running others ih =>
    simp only [List.map_cons]
    exact congrArg (work task :: ·) ih

def writeRows {α : Type} {n : Nat} (base : Nat) (out : Vector α n) (values : List (Nat × α)) :
    Vector α n :=
  values.foldl (fun out (i, v) ↦ out.setIfInBounds (base + i) v) out

def Schedule.run {α : Type} {n : Nat} (schedule : Schedule) (value : Nat → Except Violation α)
    (base : Nat) (out : Vector α n) : Except Violation (Vector α n) :=
  (runTasks (fun rows ↦ rows.mapM fun i ↦ return (i, ← value i)) schedule).foldlM
    (fun out results ↦ return writeRows base out (← results)) out

end GraphTransport
