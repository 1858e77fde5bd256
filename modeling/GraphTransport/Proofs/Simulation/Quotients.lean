import Mathlib.Tactic.NormNum
import GraphTransport.Proofs.Evolution.Rates
import GraphTransport.Proofs.Periodic.Assembly
import GraphTransport.Simulation.Basic

namespace GraphTransport

variable {F : Type} [Field F] [LinearOrder F]

/-- Exact arithmetic with `exp` for the exponential function and `atZero a` for the quotient of `a`
and zero. -/
@[reducible] def ExpScalar.exact (exp atZero : F → F) : ExpScalar F where
  toScalar := { (instScalarOfField : Scalar F) with
    div a b := if b = 0 then atZero a else a / b }
  exp := exp

@[reducible] def ExpScalar.ofField (exp : F → F) : ExpScalar F where
  toScalar := instScalarOfField
  exp := exp

variable {exp atZero : F → F}

theorem div_exact {a b : F} (hb : b ≠ 0) :
    (letI : ExpScalar F := .exact exp atZero; a / b) = a / b := if_neg hb

section Rates

variable {g : GraphOperator F} (hg : ∀ m ∈ g.lumpedMass, m ≠ 0)
include hg

namespace GraphOperator

theorem div_lumpedMass_exact (i : Nat) (sum : F) :
    (letI : ExpScalar F := .exact exp atZero; do return sum / (← fetch g.lumpedMass i)) =
      (do return sum / (← fetch g.lumpedMass i) : Except Violation F) := by
  apply bind_congr_of_ok rfl
  intro m hm
  exact congrArg Except.ok (div_exact (hg m (Array.mem_of_getElem? (fetch_eq_ok_iff.1 hm))))

theorem lowOrderRate_exact :
    (letI : ExpScalar F := .exact exp atZero; g.lowOrderRate) = g.lowOrderRate := by
  funext x i
  refine bind_congr fun _ ↦ bind_congr fun _ ↦ bind_congr fun sum ↦ ?_
  exact div_lumpedMass_exact hg i sum

theorem highOrderRate_exact :
    (letI : ExpScalar F := .exact exp atZero; g.highOrderRate) = g.highOrderRate := by
  funext x z i
  refine bind_congr fun _ ↦ bind_congr fun _ ↦ bind_congr fun _ ↦ bind_congr fun sum ↦ ?_
  exact div_lumpedMass_exact hg i sum

theorem mclRate_exact : (letI : ExpScalar F := .exact exp atZero; g.mclRate) = g.mclRate := by
  funext x z i
  refine bind_congr fun _ ↦ bind_congr fun _ ↦ bind_congr fun sum ↦ ?_
  exact div_lumpedMass_exact hg i sum

end GraphOperator

theorem Scheme.rowRate_exact (scheme : Scheme) :
    (letI : ExpScalar F := .exact exp atZero; scheme.rowRate g) = scheme.rowRate g := by
  cases scheme with
  | lowOrder =>
    funext x _
    exact congrFun (GraphOperator.lowOrderRate_exact hg) x
  | highOrder => exact GraphOperator.highOrderRate_exact hg
  | mcl => exact GraphOperator.mclRate_exact hg

omit hg in
theorem RateFunction.ofEvolution_exact {e : Evolution F} (he : ∀ m ∈ e.graph.lumpedMass, m ≠ 0) :
    (letI : ExpScalar F := .exact exp atZero; RateFunction.ofEvolution e) = .ofEvolution e := by
  unfold RateFunction.ofEvolution Evolution.replaceRates evaluateVariables evaluateVariable
  simp only [Scheme.rowRate_exact he, GraphOperator.lowOrderRate_exact he]

end Rates

section Steps

variable {ε σ τ : Type} {n : Nat} (solver : Solver F) (f : RateFunction ε σ F)

theorem runStages_exact (T : Tableau F) (dt : F) (x : Vector F n) (stages : List (Fin T.numStages))
    (slopes : Vector (Vector F n) T.numStages) (memory : σ) :
    (letI : ExpScalar F := .exact exp atZero; Solver.runStages T f dt x stages slopes memory) =
      Solver.runStages T f dt x stages slopes memory := by
  induction stages generalizing slopes memory with
  | nil => rfl
  | cons s rest ih =>
    unfold Solver.runStages
    have hstate : (letI : ExpScalar F := .exact exp atZero; T.stageState dt x slopes s) =
      T.stageState dt x slopes s := rfl
    simp only [hstate, ih]

theorem step_exact (x : Vector F n) (t dt : F) (memory : σ) :
    (letI : ExpScalar F := .exact exp atZero; solver.step f x t dt memory) =
      solver.step f x t dt memory := by
  unfold Solver.step
  simp only [runStages_exact]
  rfl

theorem continueRun_exact (observe : Observer τ F n) (tFinal dt : F) (budget : Nat)
    (run : Solver.Run σ τ F n) :
    (letI : ExpScalar F := .exact exp atZero; Solver.continueRun f observe tFinal dt budget run) =
      Solver.continueRun f observe tFinal dt budget run := by
  induction budget generalizing run with
  | zero =>
    unfold Solver.continueRun
    rfl
  | succ budget ih =>
    unfold Solver.continueRun
    simp only [step_exact, ih]
    rfl

theorem integrate_exact (observe : Observer τ F n) (budget : Nat) (x : Vector F n) (tFinal dt : F)
    (memory : σ) (seen : τ) :
    (letI : ExpScalar F := .exact exp atZero;
      solver.integrate budget f observe x tFinal dt memory seen) =
      solver.integrate budget f observe x tFinal dt memory seen := by
  unfold Solver.integrate
  simp only [continueRun_exact]

end Steps

variable [IsStrictOrderedRing F]

theorem tableau_exact (method : OdeMethod) :
    (letI : ExpScalar F := .exact exp atZero; (method.tableau : Tableau F)) = method.tableau := by
  have hsix : (6.0 : F) ≠ 0 := by norm_num
  have hthree : (3.0 : F) ≠ 0 := by norm_num
  cases method with
  | sspRk3 =>
    unfold OdeMethod.tableau Tableau.sspRk3
    simp only [div_exact hsix, div_exact hthree]
  | rk4 =>
    unfold OdeMethod.tableau Tableau.classicRk4
    simp only [div_exact hsix, div_exact hthree]
  | forwardEuler | heun | rk6 => rfl

theorem rowTimeStep?_exact (g : GraphOperator F) :
    (letI : ExpScalar F := .exact exp atZero; g.rowTimeStep?) = g.rowTimeStep? := by
  funext i
  refine bind_congr fun edges ↦ ?_
  by_cases hsum : 0 < edges.foldl (fun sum e ↦ sum + e.viscosity) 0
  · refine (if_pos hsum).trans (Eq.trans ?_ (if_pos hsum).symm)
    refine bind_congr fun m ↦ ?_
    exact congrArg (fun dt ↦ Except.ok (some dt))
      (div_exact (mul_ne_zero (by norm_num) hsum.ne'))
  · exact (if_neg hsum).trans (if_neg hsum).symm

theorem stableTimeStep?_exact (g : GraphOperator F) :
    (letI : ExpScalar F := .exact exp atZero; g.stableTimeStep?) = g.stableTimeStep? := by
  unfold GraphOperator.stableTimeStep?
  simp only [rowTimeStep?_exact]

section Segment

variable {segment : PeriodicSegment F}

theorem cellSize_exact (hcells : segment.numCells ≠ 0) :
    (letI : ExpScalar F := .exact exp atZero; segment.cellSize) = segment.cellSize :=
  div_exact (Nat.cast_ne_zero.2 hcells)

theorem advectionOperator_exact (hcells : segment.numCells ≠ 0) (velocity : F) :
    (letI : ExpScalar F := .exact exp atZero; segment.advectionOperator velocity) =
      segment.advectionOperator velocity := by
  have hsix : (6.0 : F) ≠ 0 := by norm_num
  have htwo : (2.0 : F) ≠ 0 := by norm_num
  unfold PeriodicSegment.advectionOperator PeriodicSegment.elementMass
    PeriodicSegment.elementConvection
  simp only [cellSize_exact hcells, div_exact hsix, div_exact htwo]
  rfl

theorem nodeCoordinates_exact (hcells : segment.numCells ≠ 0) (sizes : SizeArithmetic) :
    (letI : ExpScalar F := .exact exp atZero; segment.nodeCoordinates sizes) =
      segment.nodeCoordinates sizes := by
  unfold PeriodicSegment.nodeCoordinates PeriodicSegment.nodeCoordinate
  simp only [cellSize_exact hcells]

theorem bumpAndStepValue_exact (x : F) :
    (letI : ExpScalar F := .exact exp atZero; Problem.bumpAndStepValue x) =
      (letI : ExpScalar F := .ofField exp; Problem.bumpAndStepValue x) := by
  by_cases hbump : 0.5 < x ∧ x < 0.9
  · have hleft : 0.5 - x ≠ 0 := (sub_neg.2 hbump.1).ne
    have hright : x - 0.9 ≠ 0 := (sub_neg.2 hbump.2).ne
    refine (if_pos hbump).trans (Eq.trans ?_ (if_pos hbump).symm)
    exact congrArg₂ (fun a b ↦ exp 10.0 * exp a * exp b) (div_exact hleft) (div_exact hright)
  · exact (if_neg hbump).trans (if_neg hbump).symm

omit [IsStrictOrderedRing F] in
theorem gaussianValue_exact {length : F} (hlength : length ≠ 0) (x : F) :
    (letI : ExpScalar F := .exact exp atZero; Problem.gaussianValue length x) =
      (letI : ExpScalar F := .ofField exp; Problem.gaussianValue length x) :=
  congrArg (fun reference ↦ exp (-40.0 * ((reference - 0.5) * (reference - 0.5))))
    (div_exact hlength)

theorem initialValue_exact (hlength : segment.length ≠ 0)
    (problem : Problem) :
    (letI : ExpScalar F := .exact exp atZero; problem.initialValue segment) =
      (letI : ExpScalar F := .ofField exp; problem.initialValue segment) := by
  funext x
  cases problem with
  | bumpAndStep => exact bumpAndStepValue_exact x
  | gaussian => exact gaussianValue_exact hlength x

theorem initialState_exact (hcells : segment.numCells ≠ 0) (hlength : segment.length ≠ 0)
    (sizes : SizeArithmetic) (problem : Problem) :
    (letI : ExpScalar F := .exact exp atZero; problem.initialState sizes segment) =
      (letI : ExpScalar F := .ofField exp; problem.initialState sizes segment) := by
  unfold Problem.initialState
  simp only [nodeCoordinates_exact hcells, initialValue_exact hlength]

theorem unit_eq_ok_iff {numCells : Nat} : PeriodicSegment.unit numCells = .ok segment ↔
    2 ≤ numCells ∧ ⟨numCells, 1⟩ = segment := by
  rw [PeriodicSegment.unit, PeriodicSegment.create_eq_ok_iff]
  exact and_congr_right fun _ ↦ and_iff_right one_pos

end Segment

/-- No run divides by zero: it shows the same, whatever the quotients by zero are. -/
theorem run_exact (sizes : SizeArithmetic) (budget : Nat) (s : Settings F) :
    (letI : ExpScalar F := .exact exp atZero; Simulation.run sizes budget s) =
      (letI : ExpScalar F := .ofField exp; Simulation.run sizes budget s) := by
  unfold Simulation.run
  refine bind_congr_of_ok rfl fun segment hsegment ↦ ?_
  obtain ⟨htwo, rfl⟩ := unit_eq_ok_iff.1 (mapError_eq_ok_iff.1 hsegment)
  have hcells : s.numCells ≠ 0 := by omega
  refine bind_congr_of_ok
    (congrArg Fault.ofViolation (advectionOperator_exact hcells _)) fun g hg ↦ ?_
  obtain ⟨g', hassemble, haccepted, -⟩ :=
    PeriodicSegment.exists_advectionOperator (s := (⟨s.numCells, 1⟩ : PeriodicSegment F))
      (Nat.pos_of_ne_zero hcells) one_pos s.problem.velocity
  obtain rfl : g' = g := Except.ok.inj (hassemble.symm.trans (mapError_eq_ok_iff.1 hg))
  have hlumped (m : F) (hm : m ∈ g'.lumpedMass) : m ≠ 0 := (haccepted.lumped_pos m hm).ne'
  refine bind_congr_of_ok (congrArg Fault.ofViolation (stableTimeStep?_exact g')) fun limit _ ↦ ?_
  refine bind_congr_of_ok rfl fun e he ↦ ?_
  obtain ⟨-, rfl⟩ := Evolution.create_eq_ok_iff.1 (mapError_eq_ok_iff.1 he)
  refine bind_congr_of_ok
    (congrArg Fault.ofViolation (initialState_exact hcells one_ne_zero sizes _)) fun u _ ↦ ?_
  refine bind_congr_of_ok rfl fun _ _ ↦ ?_
  have hrates : (letI : ExpScalar F := .exact exp atZero; RateFunction.ofEvolution
      (Evolution.withExecution ⟨s.scheme, g', s.problem.numVars, .default, sizes⟩ s.execution)) =
      .ofEvolution _ := RateFunction.ofEvolution_exact hlumped
  have hcoordinates : (letI : ExpScalar F := .exact exp atZero;
      PeriodicSegment.nodeCoordinates sizes (⟨s.numCells, 1⟩ : PeriodicSegment F)) =
      PeriodicSegment.nodeCoordinates sizes _ := nodeCoordinates_exact hcells sizes
  simp only [hrates, integrate_exact, tableau_exact, hcoordinates]
  rfl

end GraphTransport
