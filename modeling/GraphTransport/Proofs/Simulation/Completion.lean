import GraphTransport.Proofs.Evolution.TotalMass
import GraphTransport.Proofs.Graph.TimeStep
import GraphTransport.Proofs.RungeKutta.StepCount
import GraphTransport.Proofs.RungeKutta.Termination
import GraphTransport.Proofs.Simulation.Quotients

namespace GraphTransport

section Tables

variable {α : Type}

structure Table.Shows (table : Table α) (n : Nat) (coordinate : Nat → α) (numVars : Nat)
    (state : Array α) : Prop where
  length_header : table.header.length = numVars + 1
  length_rows : table.rows.length = n
  row_spec : ∀ i < n, ∃ row, table.rows[i]? = some row ∧ row.length = numVars + 1 ∧
    row[0]? = some (coordinate i) ∧
    ∀ var < numVars, row[var + 1]? = state[i + var * n]?

theorem Table.length_lines (write : α → String) (table : Table α) :
    (table.lines write).length = table.rows.length + 1 := by
  simp [Table.lines]

variable [Scalar α] {n numVars : Nat}

def nodeRow (n numVars : Nat) (coordinate : Nat → α) (state : Array α) (i : Nat) : List α :=
  coordinate i :: (List.range numVars).map fun var ↦ state.getD (i + var * n) 0

omit [Scalar α] in
theorem position_lt {state : Array α} (hstate : state.size = numVars * n) {i var : Nat}
    (hi : i < n) (hvar : var < numVars) : i + var * n < state.size := by
  rw [hstate, Nat.add_comm]
  exact block_lt hvar hi

theorem stateTable_eq (coordinate : Nat → α) {state : Array α} (hstate : state.size = numVars * n) :
    stateTable ((List.range n).map coordinate).toArray state numVars = .ok
      { header := "x" :: (List.range numVars).map fun var ↦ "u" ++ toString var
        rows := (List.range n).map (nodeRow n numVars coordinate state) } := by
  have hrows : (List.range n).mapM (fun i ↦ do
      let x ← fetch ((List.range n).map coordinate).toArray i
      let values ← (List.range numVars).mapM fun var ↦ fetch state (i + var * n)
      return x :: values) = .ok ((List.range n).map (nodeRow n numVars coordinate state)) := by
    refine mapM_eq_ok_map fun i hi ↦ ?_
    have hi := List.mem_range.1 hi
    have hcoordinate : fetch ((List.range n).map coordinate).toArray i = .ok (coordinate i) :=
      fetch_eq_ok_iff.2 (by simp [hi])
    have hvalues : (List.range numVars).mapM (fun var ↦ fetch state (i + var * n)) =
        .ok ((List.range numVars).map fun var ↦ state.getD (i + var * n) 0) :=
      mapM_eq_ok_map fun var hvar ↦
        fetch_eq_ok_getD (position_lt hstate hi (List.mem_range.1 hvar))
    rw [hcoordinate, ok_bind, hvalues]
    rfl
  have hsize : ((List.range n).map coordinate).toArray.size = n := by simp
  rw [stateTable, hsize]
  simp only [hrows, ok_bind]
  rfl

theorem exists_stateTable (coordinate : Nat → α) {state : Array α}
    (hstate : state.size = numVars * n) :
    ∃ table, stateTable ((List.range n).map coordinate).toArray state numVars = .ok table ∧
      table.Shows n coordinate numVars state := by
  refine ⟨_, stateTable_eq coordinate hstate, by simp, by simp, fun i hi ↦ ?_⟩
  refine ⟨nodeRow n numVars coordinate state i, by simp [hi], by simp [nodeRow], rfl, ?_⟩
  intro var hvar
  have hposition := position_lt hstate hi hvar
  simp [nodeRow, hvar, hposition]

end Tables

section InitialData

variable {α : Type} [ExpScalar α] {segment : PeriodicSegment α}

def Problem.initialComponent (problem : Problem) (segment : PeriodicSegment α) (k : Nat) : α :=
  let value := problem.initialValue segment (segment.nodeCoordinate (k % segment.numNodes))
  if k / segment.numNodes % 2 = 0 then value else -value

theorem Problem.initialState_eq (problem : Problem) (hcells : segment.numNodes ≠ 0)
    {sizes : SizeArithmetic}
    (hmul : sizes.mul problem.numVars segment.numNodes = .ok (problem.numVars * segment.numNodes))
    (hnodes : sizes.canHold segment.numNodes)
    (hstate : sizes.canHold (problem.numVars * segment.numNodes)) :
    problem.initialState sizes segment = .ok
      ((List.range (problem.numVars * segment.numNodes)).map
        (problem.initialComponent segment)).toArray := by
  have hcoordinates : segment.nodeCoordinates sizes =
      .ok ((List.range segment.numNodes).map segment.nodeCoordinate).toArray := by
    rw [PeriodicSegment.nodeCoordinates, SizeArithmetic.reserve, if_pos hnodes]
    rfl
  let first : Array α := ((List.range segment.numNodes).map segment.nodeCoordinate).toArray.map
    (problem.initialValue segment)
  have hsize : first.size = segment.numNodes := by simp [first]
  have hcomponents : (List.range (problem.numVars * segment.numNodes)).mapM (fun k ↦ (do
      if segment.numNodes = 0 then
        throw .remainderByZero
      let value ← fetch first (k % segment.numNodes)
      return if (k / segment.numNodes) % 2 = 0 then value else -value : Except Violation α)) =
      .ok ((List.range (problem.numVars * segment.numNodes)).map
        (problem.initialComponent segment)) := by
    refine mapM_eq_ok_map fun k _ ↦ ?_
    have hnode : k % segment.numNodes < segment.numNodes := Nat.mod_lt k (Nat.pos_of_ne_zero hcells)
    have hvalue : fetch first (k % segment.numNodes) =
        .ok (problem.initialValue segment (segment.nodeCoordinate (k % segment.numNodes))) :=
      fetch_eq_ok_iff.2 (by simp [first, hnode])
    rw [if_neg hcells, hvalue]
    rfl
  have hlength : sizes.mul problem.numVars first.size =
      .ok (problem.numVars * segment.numNodes) := by
    rw [hsize, hmul]
  have hreserve : sizes.reserve (problem.numVars * segment.numNodes) = .ok () := by
    rw [SizeArithmetic.reserve, if_pos hstate]
  rw [Problem.initialState, hcoordinates, ok_bind]
  refine bind_eq_ok.2 ⟨_, hlength, bind_eq_ok.2 ⟨(), hreserve, bind_eq_ok.2 ⟨_, ?_, rfl⟩⟩⟩
  rw [hsize]
  exact hcomponents

theorem Problem.exists_initialState (problem : Problem) (hcells : segment.numCells ≠ 0) :
    ∃ u, problem.initialState .exact segment = .ok u ∧
      u.size = problem.numVars * segment.numCells := by
  refine ⟨_, problem.initialState_eq hcells rfl rfl rfl, ?_⟩
  rw [List.size_toArray, List.length_map, List.length_range]
  rfl

end InitialData

namespace Simulation

theorem reportProgress_eq {α : Type} [Scalar α] {n reportInterval : Nat} (h : reportInterval ≠ 0)
    (step : Nat) (time : α) (x : Vector α n) (log : List (LogEntry α)) :
    reportProgress reportInterval step time x log = .ok (if step % reportInterval = 0 then
      .progress step time (leastComponent x.toArray) (greatestComponent x.toArray) :: log
    else log) := by
  rw [reportProgress, if_neg h]
  split <;> rfl

theorem run_eq_ok {α : Type} [ExpScalar α] {sizes : SizeArithmetic} {budget : Nat} {s : Settings α}
    {segment : PeriodicSegment α} {g : GraphOperator α} {limit : Option α} {e : Evolution α}
    {u initialMass finalMass coordinates : Array α} {report : IntegrationReport α}
    {final : Solver.Run (Array α) (List (LogEntry α)) α u.size} {table : Table α}
    (hsegment : PeriodicSegment.unit s.numCells = .ok segment)
    (hg : segment.advectionOperator s.problem.velocity = .ok g)
    (hlimit : g.stableTimeStep? = .ok limit)
    (he : Evolution.create sizes s.scheme g s.problem.numVars = .ok e)
    (hu : s.problem.initialState sizes segment = .ok u)
    (hinitial : g.totalMass sizes u s.problem.numVars = .ok initialMass)
    (hintegrate : (Solver.ofTableau s.odeMethod.tableau).integrate budget
      (.ofEvolution (e.withExecution s.execution)) (reportProgress s.reportInterval) u.toVector
      s.tFinal s.dt #[] (limitWarning s limit).reverse = (.ok report, final))
    (hfinal : g.totalMass sizes final.x.toArray s.problem.numVars = .ok finalMass)
    (hcoordinates : segment.nodeCoordinates sizes = .ok coordinates)
    (htable : stateTable coordinates final.x.toArray s.problem.numVars = .ok table) :
    run sizes budget s = .ok ⟨final.seen.reverse, report, final.x.toArray, table⟩ := by
  refine bind_eq_ok.2 ⟨segment, mapError_eq_ok_iff.2 hsegment, ?_⟩
  refine bind_eq_ok.2 ⟨g, mapError_eq_ok_iff.2 hg, ?_⟩
  refine bind_eq_ok.2 ⟨limit, mapError_eq_ok_iff.2 hlimit, ?_⟩
  refine bind_eq_ok.2 ⟨e, mapError_eq_ok_iff.2 he, ?_⟩
  refine bind_eq_ok.2 ⟨u, mapError_eq_ok_iff.2 hu, ?_⟩
  refine bind_eq_ok.2 ⟨initialMass, hinitial, ?_⟩
  dsimp only
  rw [hintegrate]
  refine bind_eq_ok.2 ⟨report, rfl, ?_⟩
  refine bind_eq_ok.2 ⟨finalMass, hfinal, ?_⟩
  refine bind_eq_ok.2 ⟨coordinates, mapError_eq_ok_iff.2 hcoordinates, ?_⟩
  exact bind_eq_ok.2 ⟨table, mapError_eq_ok_iff.2 htable, rfl⟩

variable {F : Type} [Field F] [LinearOrder F] [IsStrictOrderedRing F]

/-- How a run with the settings `s` has come to its end. -/
structure Completes (simulation : Simulation F) (s : Settings F) : Prop where
  le_finalTime : s.tFinal - 1e-8 * s.dt ≤ simulation.summary.finalTime
  finalTime_le : simulation.summary.finalTime ≤ s.tFinal
  size_state : simulation.state.size = s.problem.numVars * s.numCells
  table_shows : simulation.table.Shows s.numCells
    (PeriodicSegment.nodeCoordinate ⟨s.numCells, 1⟩) s.problem.numVars simulation.state
  length_lines : ∀ write, (simulation.table.lines write).length = s.numCells + 1

variable [FloorSemiring F] {s : Settings F}

theorem exists_run_ofField (exp : F → F) (hs : s.validate = .ok ()) :
    ∃ simulation : Simulation F, simulation.Completes s ∧
      ∀ budget, stepCount s.tFinal s.dt ≤ budget →
        (letI : ExpScalar F := .ofField exp; run .exact budget s) = .ok simulation := by
  let : ExpScalar F := .ofField exp
  obtain ⟨hdt, htFinal, hreport, htwo⟩ := Settings.validate_eq_ok_iff.1 hs
  let segment : PeriodicSegment F := ⟨s.numCells, 1⟩
  have hcells : 0 < segment.numCells := two_pos.trans_le htwo
  have hvars : s.problem.numVars ≠ 0 := by cases s.problem <;> decide
  obtain ⟨g, hg, haccepted, hnodes⟩ :=
    PeriodicSegment.exists_advectionOperator hcells one_pos s.problem.velocity
  obtain ⟨u, hu, husize⟩ := s.problem.exists_initialState hcells.ne'
  have hsize : u.size = s.problem.numVars * g.numNodes := husize.trans (congrArg _ hnodes.symm)
  have hfits : SizeArithmetic.exact.Fits s.problem.numVars g.numNodes := ⟨rfl, rfl⟩
  have hmass {x : Array F} (hx : x.size = u.size) :=
    g.totalMass_eq hvars hfits (hx.trans hsize)
  let e : Evolution F := ⟨s.scheme, g, s.problem.numVars, .default, .exact⟩
  have hrates : (RateFunction.ofEvolution (e.withExecution s.execution)).NeverFails u.size :=
    (Evolution.computes_rates haccepted rfl hsize).neverFails
  obtain ⟨final, hintegrate⟩ := Solver.exists_integrate_eq_ok (reportProgress_eq hreport) hrates hdt
    (.ofTableau s.odeMethod.tableau) u.toVector s.tFinal #[]
    (limitWarning s g.timeStepLimit).reverse
  have hstate : final.x.toArray.size = s.problem.numVars * s.numCells :=
    final.x.size_toArray.trans husize
  obtain ⟨table, htable, hshows⟩ := exists_stateTable segment.nodeCoordinate hstate
  let report : IntegrationReport F :=
    ⟨stepCount s.tFinal s.dt, cutTime s.tFinal s.dt (stepCount s.tFinal s.dt)⟩
  refine ⟨⟨final.seen.reverse, report, final.x.toArray, table⟩, ?_, ?_⟩
  · refine ⟨le_cutTime_stepCount hdt, cutTime_le htFinal _, hstate, hshows, fun write ↦ ?_⟩
    rw [Table.length_lines, hshows.length_rows]
  · intro budget hbudget
    exact run_eq_ok (unit_eq_ok_iff.2 ⟨htwo, rfl⟩) hg haccepted.stableTimeStep?_eq
      (Evolution.create_eq_ok_iff.2 ⟨hvars, rfl⟩) hu (hmass rfl) (hintegrate budget hbudget)
      (hmass final.x.size_toArray) rfl htable

/-- With valid settings a run comes to its end in as many steps as its final time takes, whatever
the exponential function is and whatever the quotients by zero are. -/
theorem exists_run_of_validate (exp : F → F) (hs : s.validate = .ok ()) :
    ∃ simulation : Simulation F, simulation.Completes s ∧
      ∀ (atZero : F → F) (budget : Nat), stepCount s.tFinal s.dt ≤ budget →
        (letI : ExpScalar F := .exact exp atZero; run .exact budget s) = .ok simulation := by
  obtain ⟨simulation, hcompletes, hrun⟩ := exists_run_ofField exp hs
  refine ⟨simulation, hcompletes, fun atZero budget hbudget ↦ ?_⟩
  rw [run_exact]
  exact hrun budget hbudget

def coarse : Settings ℚ :=
  { (Settings.default : Settings ℚ) with problem := .gaussian, numCells := 2, dt := 1 / 3 }

theorem exists_run_of_validate_coarse : coarse.validate = .ok () ∧
    ∃ simulation : Simulation ℚ, simulation.Completes coarse ∧
      simulation.state.size = 4 ∧ simulation.table.rows.length = 2 ∧
      (letI : ExpScalar ℚ := .exact (fun x : ℚ ↦ 1 + x) (fun a ↦ a); run .exact 3 coarse) =
        .ok simulation := by
  have hvalid : coarse.validate = .ok () := Settings.validate_eq_ok_iff.2 (by decide +kernel)
  have hcount : stepCount coarse.tFinal coarse.dt = 3 := by
    rw [stepCount, Nat.ceil_eq_iff (by decide)]
    decide +kernel
  obtain ⟨simulation, hcompletes, hrun⟩ := exists_run_of_validate (fun x : ℚ ↦ 1 + x) hvalid
  exact ⟨hvalid, simulation, hcompletes, hcompletes.size_state, hcompletes.table_shows.length_rows,
    hrun (fun a ↦ a) 3 hcount.le⟩

end Simulation

end GraphTransport
