import GraphTransport.RungeKutta.Tableau
import GraphTransport.RungeKutta.RateFunction

namespace GraphTransport

@[specialize] def addScaled {α : Type} [Scalar α] {n : Nat} (c : α) (k y : Vector α n) :
    Vector α n :=
  Vector.zipWith (fun k y ↦ c * k + y) k y

namespace Tableau

variable {α : Type} [Scalar α] {n : Nat}

/-- The state at which stage `s` of a step evaluates the right-hand side: `x` plus the slopes of
the stages before it. A coefficient that is zero is left out, whatever its slope holds. -/
def stageState (T : Tableau α) (dt : α) (x : Vector α n)
    (slopes : Vector (Vector α n) T.numStages) (s : Fin T.numStages) : Vector α n :=
  Nat.fold s.val (fun l hl y ↦
    have : l < T.numStages := Nat.lt_trans hl s.isLt
    let a := T.coefficients[s][l]
    if a == 0 then y else addScaled (dt * a) slopes[l] y) x

def advance (T : Tableau α) (dt : α) (x : Vector α n)
    (slopes : Vector (Vector α n) T.numStages) : Vector α n :=
  Nat.fold T.numStages (fun s _ y ↦
    let b := T.weights[s]
    if b == 0 then y else addScaled (dt * b) slopes[s] y) x

end Tableau

structure StageBuffers (α : Type) (numStages : Nat) where
  len : Nat
  slopes : Vector (Vector α len) numStages

/-- Slopes for states of length `n`: the ones at hand if they fit, else fresh ones. -/
def StageBuffers.slopesOfLength {α : Type} [Zero α] {numStages : Nat}
    (buffers : StageBuffers α numStages) (n : Nat) : Vector (Vector α n) numStages :=
  if h : buffers.len = n then h ▸ buffers.slopes
  else Vector.replicate numStages (Vector.replicate n 0)

structure Solver (α : Type) where
  tableau : Tableau α
  buffers : StageBuffers α tableau.numStages

namespace Solver

variable {ε σ α : Type} {n : Nat}

def ofTableau (T : Tableau α) : Solver α :=
  ⟨T, 0, Vector.replicate T.numStages ⟨#[], rfl⟩⟩

structure Stages (ε σ α : Type) (n numStages : Nat) where
  outcome : Except (Fault ε) Unit
  slopes : Vector (Vector α n) numStages
  memory : σ

def runStages [Scalar α] (T : Tableau α) (f : RateFunction ε σ α) (dt : α) (x : Vector α n) :
    List (Fin T.numStages) → Vector (Vector α n) T.numStages → σ → Stages ε σ α n T.numStages
  | [], slopes, memory => ⟨.ok (), slopes, memory⟩
  | s :: rest, slopes, memory =>
    let result := f.eval (T.stageState dt x slopes s) slopes[s] memory
    let slopes := slopes.set s result.rates
    match result.outcome with
    | .error e => ⟨.error e, slopes, result.memory⟩
    | .ok () => runStages T f dt x rest slopes result.memory

theorem runStages_cons_of_error [Scalar α] {T : Tableau α} {f : RateFunction ε σ α} {dt : α}
    {x : Vector α n} {s : Fin T.numStages} {slopes : Vector (Vector α n) T.numStages} {memory : σ}
    {e : Fault ε} (rest : List (Fin T.numStages))
    (h : (f.eval (T.stageState dt x slopes s) slopes[s] memory).outcome = .error e) :
    runStages T f dt x (s :: rest) slopes memory =
      let result := f.eval (T.stageState dt x slopes s) slopes[s] memory
      ⟨.error e, slopes.set s result.rates, result.memory⟩ := by
  rw [runStages]
  simp only [h]

theorem runStages_cons_of_ok [Scalar α] {T : Tableau α} {f : RateFunction ε σ α} {dt : α}
    {x : Vector α n} {s : Fin T.numStages} {slopes : Vector (Vector α n) T.numStages} {memory : σ}
    (rest : List (Fin T.numStages))
    (h : (f.eval (T.stageState dt x slopes s) slopes[s] memory).outcome = .ok ()) :
    runStages T f dt x (s :: rest) slopes memory =
      let result := f.eval (T.stageState dt x slopes s) slopes[s] memory
      runStages T f dt x rest (slopes.set s result.rates) result.memory := by
  rw [runStages]
  simp only [h]

structure Stepped (ε σ α : Type) (n : Nat) where
  outcome : Except (Fault ε) Unit
  solver : Solver α
  x : Vector α n
  t : α
  memory : σ

def step [Scalar α] (solver : Solver α) (f : RateFunction ε σ α) (x : Vector α n) (t dt : α)
    (memory : σ) : Stepped ε σ α n :=
  let T := solver.tableau
  let stages := runStages T f dt x (List.finRange T.numStages) (solver.buffers.slopesOfLength n)
    memory
  let solver : Solver α := ⟨T, n, stages.slopes⟩
  match stages.outcome with
  | .error e => ⟨.error e, solver, x, t, stages.memory⟩
  | .ok () => ⟨.ok (), solver, T.advance dt x stages.slopes, t + dt, stages.memory⟩

end Solver

end GraphTransport
