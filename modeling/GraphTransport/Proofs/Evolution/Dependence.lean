import GraphTransport.Proofs.Evolution.Rates
import GraphTransport.Proofs.RungeKutta.Relations
import GraphTransport.RungeKutta.Methods

namespace GraphTransport

variable {α : Type} [Scalar α] {k : Nat}

theorem variableAt_of_le {x : Array α} {n var i : Nat} (h : x.size ≤ var * n + i) :
    variableAt x n var i = 0 := by
  rw [variableAt, Array.getD_eq_getD_getElem?, Array.getElem?_eq_none h, Option.getD_none]

theorem getElem?_eq_of_variableAt {x x' : Array α} {n var i : Nat} (hsize : x.size = x'.size)
    (h : variableAt x n var i = variableAt x' n var i) : x[var * n + i]? = x'[var * n + i]? := by
  by_cases hp : var * n + i < x.size
  · have hp' : var * n + i < x'.size := hp.trans_eq hsize
    rw [variableAt, variableAt, getD_of_lt hp, getD_of_lt hp'] at h
    rw [Array.getElem?_eq_getElem hp, Array.getElem?_eq_getElem hp', h]
  · have hp' : x'.size ≤ var * n + i := hsize.symm.trans_le (Nat.le_of_not_lt hp)
    rw [Array.getElem?_eq_none (Nat.le_of_not_lt hp), Array.getElem?_eq_none hp']

theorem variableAt_addScaled_congr {c : α} {k₁ k₂ y₁ y₂ : Vector α k} {n var i : Nat}
    (hk : variableAt k₁.toArray n var i = variableAt k₂.toArray n var i)
    (hy : variableAt y₁.toArray n var i = variableAt y₂.toArray n var i) :
    variableAt (addScaled c k₁ y₁).toArray n var i =
      variableAt (addScaled c k₂ y₂).toArray n var i := by
  by_cases hp : var * n + i < k
  · rw [variableAt_toArray _ hp, variableAt_toArray _ hp] at hk hy ⊢
    simp only [addScaled, Vector.getElem_zipWith, hk, hy]
  · have hout (x : Vector α k) : variableAt x.toArray n var i = 0 :=
      variableAt_of_le (x.size_toArray.trans_le (Nat.le_of_not_lt hp))
    rw [hout, hout]

namespace GraphOperator

/-- Two states agree, in one of their variables, at the nodes within `r` edges of node `i`. -/
def StatesAgree (g : GraphOperator α) (var i r : Nat) (x x' : Array α) : Prop :=
  g.AgreeWithin r i (variableAt x g.numNodes var) (variableAt x' g.numNodes var)

theorem isGraded_statesAgree (g : GraphOperator α) (var i : Nat) :
    IsGraded fun r (x x' : Vector α k) ↦ g.StatesAgree var i r x.toArray x'.toArray where
  anti hrs h := AgreeWithin.mono h hrs
  addScaled hk hy j hj := variableAt_addScaled_congr (hk j hj) (hy j hj)

end GraphOperator

namespace Evolution

open GraphOperator (StatesAgree)

/-- The rates of a component and its value after any number of steps are those of every other state
that agrees with the given one not too far away from its node. -/
structure DependsWithin (e : Evolution α) (reach : Nat) : Prop where
  rates : ∀ x x' : Array α, x.size = e.numVars * e.graph.numNodes →
    x'.size = e.numVars * e.graph.numNodes → ∃ y y',
    GraphTransport.evaluate e.sizes e.scheme e.graph e.numVars x = .ok y ∧
    GraphTransport.evaluate e.sizes e.scheme e.graph e.numVars x' = .ok y' ∧
    ∀ var < e.numVars, ∀ i < e.graph.numNodes, e.graph.StatesAgree var i reach x x' →
      y[var * e.graph.numNodes + i]? = y'[var * e.graph.numNodes + i]?
  steps : ∀ (T : Tableau α) (buffers buffers' : StageBuffers α T.numStages) (size : Nat → α)
      (t t' : α) (scratch scratch' : Array α) (x x' : Vector α (e.numVars * e.graph.numNodes))
      (k : Nat),
    let stepped := Solver.successive (.ofEvolution e) size ⟨.ok (), ⟨T, buffers⟩, x, t, scratch⟩ k
    let stepped' :=
      Solver.successive (.ofEvolution e) size ⟨.ok (), ⟨T, buffers'⟩, x', t', scratch'⟩ k
    stepped.outcome = .ok () ∧ stepped'.outcome = .ok () ∧
    ∀ var < e.numVars, ∀ i < e.graph.numNodes,
      e.graph.StatesAgree var i (reach * T.numStages * k) x.toArray x'.toArray →
      stepped.x[var * e.graph.numNodes + i]? = stepped'.x[var * e.graph.numNodes + i]?

variable {e : Evolution α}

theorem statesAgree_rates {var i r : Nat} (hi : i < e.graph.numNodes) (x x' : Vector α k)
    (h : e.graph.StatesAgree var i (r + e.scheme.reach) x.toArray x'.toArray) :
    e.graph.StatesAgree var i r (e.rates x).toArray (e.rates x').toArray := by
  intro j hj
  by_cases hp : var * e.graph.numNodes + j < k
  · rw [variableAt_rates x (hj.lt hi) hp, variableAt_rates x' (hj.lt hi) hp]
    exact (h.around hj).rate_eq
  · have hout (x : Vector α k) : variableAt (e.rates x).toArray e.graph.numNodes var j = 0 :=
      variableAt_of_le ((e.rates x).size_toArray.trans_le (Nat.le_of_not_lt hp))
    rw [hout, hout]

theorem exists_evaluate_of_statesAgree (he : e.graph.Accepted) (hvars : e.numVars ≠ 0)
    (hsize : e.stateSize = .ok (e.numVars * e.graph.numNodes)) {x x' : Array α}
    (hx : x.size = e.numVars * e.graph.numNodes) (hx' : x'.size = e.numVars * e.graph.numNodes) :
    ∃ y y',
      GraphTransport.evaluate e.sizes e.scheme e.graph e.numVars x = .ok y ∧
      GraphTransport.evaluate e.sizes e.scheme e.graph e.numVars x' = .ok y' ∧
      ∀ var < e.numVars, ∀ i < e.graph.numNodes, e.graph.StatesAgree var i e.scheme.reach x x' →
        y[var * e.graph.numNodes + i]? = y'[var * e.graph.numNodes + i]? := by
  obtain ⟨y, hy, hysize, hrates⟩ := he.exists_rates e.scheme hvars hsize hx
  obtain ⟨y', hy', hysize', hrates'⟩ := he.exists_rates e.scheme hvars hsize hx'
  refine ⟨y, y', hy, hy', fun var hvar i hi hagree ↦ ?_⟩
  refine getElem?_eq_of_variableAt (by rw [hysize, hysize', hx, hx']) ?_
  rw [hrates var hvar i hi, hrates' var hvar i hi]
  exact GraphOperator.AgreeWithin.rate_eq hagree

/-- The rates of the low-order scheme depend on a node and its neighbours, those of the other
schemes on the neighbours of these as well. Steps with a method of `S` stages depend on `S` times as
many edges each. -/
theorem dependsWithin_reach {mass advection : CsrMatrix α} {lumped : Array α} {g : GraphOperator α}
    (hg : GraphOperator.withLumpedMass mass advection lumped = .ok g) {sizes : SizeArithmetic}
    {numVars : Nat} (hsize : sizes.mul numVars g.numNodes = .ok (numVars * g.numNodes))
    {scheme : Scheme} {e : Evolution α} (he : create sizes scheme g numVars = .ok e)
    (execution : Execution) :
    (e.withExecution execution).DependsWithin scheme.reach := by
  have hg := GraphOperator.accepted_of_withLumpedMass hg
  obtain ⟨hvars, rfl⟩ := create_eq_ok_iff.1 he
  let e : Evolution α := ⟨scheme, g, numVars, execution, sizes⟩
  have hcomputes :
      (RateFunction.ofEvolution e).Computes (e.rates (k := numVars * g.numNodes)) :=
    e.computes_rates hg hsize rfl
  constructor
  · exact fun _ _ ↦ exists_evaluate_of_statesAgree (e := e) hg hvars hsize
  · intro T buffers buffers' size t t' scratch scratch' x x' k stepped stepped'
    refine ⟨Solver.successive_ok hcomputes.neverFails rfl k,
      Solver.successive_ok hcomputes.neverFails rfl k, fun var _ i hi hagree ↦ ?_⟩
    have hrates (r : Nat) (y y' : Vector α (numVars * g.numNodes))
        (h : g.StatesAgree var i (r + scheme.reach) y.toArray y'.toArray) :
        g.StatesAgree var i r (e.rates y).toArray (e.rates y').toArray :=
      statesAgree_rates (e := e) hi y y' h
    have hstates : g.StatesAgree var i 0 stepped.x.toArray stepped'.x.toArray :=
      (g.isGraded_statesAgree var i).successive hrates hcomputes hcomputes size
        (by rwa [Nat.zero_add])
    rw [← Vector.getElem?_toArray, ← Vector.getElem?_toArray]
    exact getElem?_eq_of_variableAt (by simp) hstates.self

def pathPattern : SparsityPattern :=
  .ofLanes 4 [[1], [0, 2], [1, 3], [2]] (by decide) (by decide)

def path : GraphOperator ℚ :=
  ⟨⟨pathPattern, #[1, 1, -2, -2, 3, 3], rfl⟩, ⟨pathPattern, #[2, -1, 0, 1, 1, -3], rfl⟩,
    #[1, 2, 3, 1], #[1, 0, 3, 2, 5, 4]⟩

theorem withLumpedMass_path :
    GraphOperator.withLumpedMass path.mass path.advection path.lumpedMass = .ok path :=
  GraphOperator.withLumpedMass_eq_ok_iff.2 ⟨rfl, rfl, rfl, by decide, by decide, rfl,
    by decide +kernel, by decide +kernel, rfl, by decide +kernel⟩

theorem dependsWithin_reach_path :
    let e : Evolution ℚ := ⟨.mcl, path, 1, .parallel, .word64⟩
    let stepped (x : Vector ℚ 4) :=
      Solver.step (.ofTableau OdeMethod.forwardEuler.tableau) (.ofEvolution e) x 0 (1 / 4) #[]
    (∃ y y', GraphTransport.evaluate .word64 .mcl path 1 #[0, 1, 1, 0] = .ok y ∧
      GraphTransport.evaluate .word64 .mcl path 1 #[0, 1, 1, 9] = .ok y' ∧ y[0]? = y'[0]?) ∧
    (stepped #v[0, 1, 1, 0]).x[0]? = (stepped #v[0, 1, 1, 9]).x[0]? := by
  intro e stepped
  obtain ⟨hrates, hsteps⟩ := dependsWithin_reach withLumpedMass_path
    (show SizeArithmetic.word64.mul 1 4 = .ok (1 * 4) from rfl)
    (show create .word64 .mcl path 1 = .ok _ from rfl) .parallel
  have hnext : ∀ i < 4, ∀ j ∈ path.neighbors i, j ≤ i + 1 := by decide
  have hvalues : ∀ j ≤ 2,
      variableAt #[0, 1, 1, 0] 4 0 j = variableAt (#[0, 1, 1, 9] : Array ℚ) 4 0 j := by
    decide +kernel
  have hagree : path.StatesAgree 0 0 2 #[0, 1, 1, 0] #[0, 1, 1, 9] := by
    intro j hj
    have hle := hj.le_add (show 0 < 4 by decide) hnext
    exact hvalues j (by omega)
  obtain ⟨y, y', hy, hy', hsame⟩ := hrates #[0, 1, 1, 0] #[0, 1, 1, 9] rfl rfl
  obtain ⟨-, -, hstates⟩ := hsteps OdeMethod.forwardEuler.tableau _ _ (fun _ ↦ 1 / 4) 0 0 #[] #[]
    #v[0, 1, 1, 0] #v[0, 1, 1, 9] 1
  exact ⟨⟨y, y', hy, hy', hsame 0 (by decide) 0 (by decide) hagree⟩,
    hstates 0 (by decide) 0 (by decide) hagree⟩

end Evolution

end GraphTransport
