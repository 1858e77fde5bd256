import GraphTransport.Proofs.Evolution.Rates
import GraphTransport.Proofs.Graph.TimeStep

namespace GraphTransport

variable {α : Type} [Scalar α]

def RowOrders.Parallel (orders : RowOrders) (n : Nat) : Prop :=
  ParallelOrder n orders.first ∧ ParallelOrder n orders.second

theorem RowOrders.Parallel.cover {orders : RowOrders} {n : Nat} (h : orders.Parallel n) :
    orders.Cover n :=
  ⟨fun _ ↦ h.1.mem_iff, fun _ ↦ h.2.mem_iff⟩

namespace GraphOperator.Accepted

variable {g : GraphOperator α}

theorem rates_eq (hg : g.Accepted) (scheme : Scheme) {x z out : Array α}
    (hx : x.size = g.numNodes) (hz : scheme.needsLowOrderRates → z.size = g.numNodes)
    (hout : out.size = g.numNodes) : scheme.rates g x z out =
      .ok ((List.range g.numNodes).map (scheme.rateAt g (valueAt x) (valueAt z))).toArray := by
  have hvalues : (List.range g.numNodes).mapM (scheme.rowRate g x z) =
      .ok ((List.range g.numNodes).map (scheme.rateAt g (valueAt x) (valueAt z))) := by
    apply mapM_eq_ok_map
    intro i hi
    exact hg.rowRate_eq scheme (List.mem_range.1 hi) hx.ge fun h ↦ (hz h).ge
  have hlength : ¬ (scheme.needsLowOrderRates ∧ z.size ≠ g.numNodes) := fun h ↦ h.2 (hz h.1)
  simp only [Scheme.rates, hx, hout, hlength, ne_eq, not_true_eq_false, if_false, hvalues]
  rfl

theorem rates_of_lowOrder_rates (hg : g.Accepted) (scheme : Scheme) {x out out' : Array α}
    (ignored : Array α) (hx : x.size = g.numNodes) (hout : out.size = g.numNodes)
    (hout' : out'.size = g.numNodes) : ∃ z, Scheme.lowOrder.rates g x ignored out = .ok z ∧
      scheme.rates g x z out' =
        .ok ((List.range g.numNodes).map (scheme.rate g (valueAt x))).toArray := by
  refine ⟨_, hg.rates_eq .lowOrder hx (fun h ↦ absurd h (by decide)) hout, ?_⟩
  rw [hg.rates_eq scheme hx (fun _ ↦ by simp) hout']
  congr 2
  apply List.map_congr_left
  intro i hi
  apply scheme.rateAt_congr (fun _ _ ↦ rfl) _ (List.mem_range.1 hi)
  intro j hj
  rw [valueAt, getD_of_lt (by simpa using hj)]
  simp [Scheme.rateAt]

end GraphOperator.Accepted

namespace Evolution

variable {e : Evolution α} {k : Nat}

/-- The length of a state is the product itself, and so many rates can be held. -/
structure StatesFit (e : Evolution α) : Prop where
  mul_eq : e.sizes.mul e.numVars e.graph.numNodes = .ok (e.numVars * e.graph.numNodes)
  canHold : e.sizes.canHold (e.numVars * e.graph.numNodes)

/-- Every way to the rates of `x` gives `rates`, whatever the vectors that take them, the scratch
buffer and the order of the rows. -/
structure GivesRates (e : Evolution α) (x rates : Vector α k) : Prop where
  once : GraphTransport.evaluate e.sizes e.scheme e.graph e.numVars x.toArray = .ok rates.toArray
  kept : ∀ execution scratch,
    ((e.withExecution execution).evaluate x.toArray scratch).1 = .ok rates.toArray
  replaced : ∀ execution scratch (y : Vector α k),
    ((e.withExecution execution).replaceRates x.toArray y scratch).outcome = .ok () ∧
      ((e.withExecution execution).replaceRates x.toArray y scratch).rates = rates
  inAnyOrder : ∀ orders : Nat → RowOrders, (∀ var, (orders var).Parallel e.graph.numNodes) →
    ∀ (y : Vector α k) (z : Vector α e.graph.numNodes), ∃ z',
      evaluateAllInOrder e.scheme e.graph orders x.toArray y z = .ok (rates, z')
  byVariable : ∀ var < e.numVars, ∀ ignored out out' : Array α,
    out.size = e.graph.numNodes → out'.size = e.graph.numNodes →
      let start := var * e.graph.numNodes
      let stop := (var + 1) * e.graph.numNodes
      ∃ z, Scheme.lowOrder.rates e.graph (x.toArray.extract start stop) ignored out = .ok z ∧
        e.scheme.rates e.graph (x.toArray.extract start stop) z out' =
          .ok (rates.toArray.extract start stop)

/-- Every evaluation of `x` is refused for its length, and nothing changes. -/
structure RefusesLength (e : Evolution α) (x : Array α) : Prop where
  once : GraphTransport.evaluate e.sizes e.scheme e.graph e.numVars x =
    .error (.refused (.stateSizeMismatch (e.numVars * e.graph.numNodes) x.size))
  kept : ∀ execution scratch, (e.withExecution execution).evaluate x scratch =
    (.error (.refused (.stateSizeMismatch (e.numVars * e.graph.numNodes) x.size)), scratch)
  replaced : ∀ execution scratch {k : Nat} (y : Vector α k),
    (e.withExecution execution).replaceRates x y scratch =
      ⟨.error (.refused (.stateSizeMismatch (e.numVars * e.graph.numNodes) x.size)), y, scratch⟩

inductive Call (α : Type) where
  | evaluate (x : Array α)
  | replaceRates (x y : Array α)

def answer (e : Evolution α) (scratch : Array α) :
    Call α → (Except (Fault EvaluationError) (Array α)) × Array α
  | .evaluate x => e.evaluate x scratch
  | .replaceRates x y =>
    let result := e.replaceRates x (⟨y, rfl⟩ : Vector α y.size) scratch
    (result.outcome.map fun _ ↦ result.rates.toArray, result.memory)

def answers (e : Evolution α) (scratch : Array α) :
    List (Execution × Call α) → List (Except (Fault EvaluationError) (Array α))
  | [] => []
  | (execution, call) :: calls =>
    let (result, scratch) := (e.withExecution execution).answer scratch call
    result :: e.answers scratch calls

/-- States of the right length have the same rates on every way, others are refused on every way,
an error changes nothing, and earlier calls do not show. -/
structure Coherent (e : Evolution α) : Prop where
  agree : ∀ x : Vector α (e.numVars * e.graph.numNodes), ∃ rates, e.GivesRates x rates
  refuse : ∀ x : Array α, x.size ≠ e.numVars * e.graph.numNodes → e.RefusesLength x
  unchanged : ∀ execution (x : Array α) {k : Nat} (y : Vector α k) scratch fault,
    ((e.withExecution execution).replaceRates x y scratch).outcome = .error fault →
      ((e.withExecution execution).replaceRates x y scratch).rates = y ∧
      ((e.withExecution execution).replaceRates x y scratch).memory = scratch
  forgetful : ∀ calls scratch,
    e.answers scratch calls = calls.map fun (_, call) ↦ (e.answer #[] call).1

theorem extract_rates (x : Vector α k) (hk : k = e.numVars * e.graph.numNodes) {var : Nat}
    (hvar : var < e.numVars) :
    (e.rates x).toArray.extract (var * e.graph.numNodes) ((var + 1) * e.graph.numNodes) =
      ((List.range e.graph.numNodes).map (e.scheme.rate e.graph
        (variableAt x.toArray e.graph.numNodes var))).toArray := by
  have hblock : (var + 1) * e.graph.numNodes ≤ (e.rates x).toArray.size := by
    rw [Vector.size_toArray, hk]
    exact Nat.mul_le_mul_right _ hvar
  refine Array.ext (by simpa using size_block hblock) fun i hi hi' ↦ ?_
  have hnode : i < e.graph.numNodes := by simpa using hi'
  simp [rates, e.scheme.componentRate_block _ _ var hnode]

theorem replaceRates_unchanged {x : Array α} {y : Vector α k} {scratch : Array α}
    {fault : Fault EvaluationError} (h : (e.replaceRates x y scratch).outcome = .error fault) :
    (e.replaceRates x y scratch).rates = y ∧ (e.replaceRates x y scratch).memory = scratch := by
  unfold replaceRates at h ⊢
  dsimp only at h ⊢
  split
  · exact ⟨rfl, rfl⟩
  split
  · exact ⟨rfl, rfl⟩
  split
  · exact ⟨rfl, rfl⟩
  split
  · exact ⟨rfl, rfl⟩
  split
  · simp_all
  · exact ⟨rfl, rfl⟩

section Lengths

variable {expected : Nat} (hsize : e.stateSize = .ok expected) {x : Array α} (y : Vector α k)
  (scratch : Array α)

include hsize

theorem replaceRates_of_size_ne (hx : x.size ≠ expected) : e.replaceRates x y scratch =
    ⟨.error (.refused (.stateSizeMismatch expected x.size)), y, scratch⟩ := by
  simp only [replaceRates, hsize, if_pos hx]

theorem replaceRates_of_length_ne (hx : x.size = expected) (hk : k ≠ expected) :
    e.replaceRates x y scratch =
      ⟨.error (.refused (.rateSizeMismatch expected k)), y, scratch⟩ := by
  simp only [replaceRates, hsize, if_neg (not_not.2 hx), if_pos hk]

/-- An evolution makes room for the rates first, and does not get to the state if there is none. -/
theorem evaluate_of_not_canHold (hroom : ¬ e.sizes.canHold expected) :
    e.evaluate x scratch = (.error (.broken .capacityExceeded), scratch) := by
  have hreserve : e.reserveRates = .error .capacityExceeded := by
    rw [reserveRates, hsize, ok_bind, SizeArithmetic.reserve, if_neg hroom]
    rfl
  simp only [evaluate, hreserve]

end Lengths

theorem stateSize_eq_of_ok {x scratch : Array α} {y : Vector α k}
    (h : (e.replaceRates x y scratch).outcome = .ok ()) : e.stateSize = .ok x.size := by
  unfold replaceRates at h
  dsimp only at h
  split at h
  · cases h
  rename_i expected hsize
  split at h
  · cases h
  rename_i hx
  rw [hsize, not_not.1 hx]

namespace StatesFit

variable (hfit : e.StatesFit)

include hfit

omit [Scalar α] in
theorem stateSize_eq : e.stateSize = .ok (e.numVars * e.graph.numNodes) := hfit.mul_eq

omit [Scalar α] in
theorem reserveRates_eq : e.reserveRates = .ok (e.numVars * e.graph.numNodes) := by
  rw [reserveRates, hfit.stateSize_eq, ok_bind, SizeArithmetic.reserve, if_pos hfit.canHold]
  rfl

theorem evaluate_of_size_ne {x : Array α} (hx : x.size ≠ e.numVars * e.graph.numNodes)
    (scratch : Array α) : e.evaluate x scratch =
      (.error (.refused (.stateSizeMismatch (e.numVars * e.graph.numNodes) x.size)), scratch) := by
  simp only [evaluate, hfit.reserveRates_eq, replaceRates_of_size_ne hfit.stateSize_eq _ _ hx]
  rfl

theorem refusesLength (hvars : e.numVars ≠ 0) {x : Array α}
    (hx : x.size ≠ e.numVars * e.graph.numNodes) : e.RefusesLength x where
  once := GraphTransport.evaluate_of_size_ne hvars hfit.mul_eq hx
  kept execution scratch := by
    exact evaluate_of_size_ne (e := e.withExecution execution) ⟨hfit.mul_eq, hfit.canHold⟩ hx
      scratch
  replaced execution scratch {k} y := by
    exact replaceRates_of_size_ne (e := e.withExecution execution) hfit.stateSize_eq y scratch hx

variable (he : e.graph.Accepted)

include he

theorem evaluate_eq (hk : k = e.numVars * e.graph.numNodes) (x : Vector α k) (scratch : Array α) :
    (e.evaluate x.toArray scratch).1 = .ok (e.rates x).toArray := by
  subst hk
  obtain ⟨hok, hrates⟩ :=
    replaceRates_eq he hfit.stateSize_eq rfl x (Vector.replicate _ 0) scratch
  simp only [evaluate, hfit.reserveRates_eq, hok, hrates]
  rfl

theorem givesRates_rates (hvars : e.numVars ≠ 0) (x : Vector α (e.numVars * e.graph.numNodes)) :
    e.GivesRates x (e.rates x) where
  once := by
    rw [he.evaluate_eq e.scheme hvars hfit.mul_eq x.size_toArray]
    congr 1
    apply Array.ext
    · simp
    · intro p hp hp'
      simp [rates]
  kept execution scratch := by
    exact evaluate_eq (e := e.withExecution execution) ⟨hfit.mul_eq, hfit.canHold⟩ he rfl x scratch
  replaced execution scratch y := by
    exact replaceRates_eq (e := e.withExecution execution) he hfit.stateSize_eq rfl x y scratch
  inAnyOrder orders horders y z := by
    have hdvd : e.graph.numNodes ∣ x.toArray.size :=
      x.size_toArray.symm ▸ Nat.dvd_mul_left _ _
    obtain ⟨y', z', hrun, hy'⟩ :=
      he.evaluateAllInOrder_eq e.scheme (fun var ↦ (horders var).cover) hdvd y z
    have hrates : y' = e.rates x := by
      apply Vector.ext
      intro p hp
      rw [hy' p hp, if_pos (hp.trans_eq x.size_toArray.symm), rates, Vector.getElem_ofFn]
    exact ⟨z', hrates ▸ hrun⟩
  byVariable var hvar ignored out out' hout hout' := by
    have hblock : (var + 1) * e.graph.numNodes ≤ x.toArray.size := by
      rw [Vector.size_toArray]
      exact Nat.mul_le_mul_right _ hvar
    obtain ⟨z, hz, hrates⟩ :=
      he.rates_of_lowOrder_rates e.scheme ignored (size_block hblock) hout hout'
    refine ⟨z, hz, hrates.trans ?_⟩
    rw [extract_rates x rfl hvar]
    congr 2
    apply List.map_congr_left
    intro i hi
    exact e.scheme.rate_congr (fun j hj ↦ valueAt_extract x.toArray hj hblock) (List.mem_range.1 hi)

theorem answer_eq (execution : Execution) (scratch : Array α) (call : Call α) :
    ((e.withExecution execution).answer scratch call).1 = (e.answer #[] call).1 := by
  have hfit' : (e.withExecution execution).StatesFit := ⟨hfit.mul_eq, hfit.canHold⟩
  cases call with
  | evaluate x =>
    by_cases hx : x.size = e.numVars * e.graph.numNodes
    · have h := hfit'.evaluate_eq he hx ⟨x, rfl⟩ scratch
      exact h.trans (hfit.evaluate_eq he hx ⟨x, rfl⟩ #[]).symm
    · have h := congrArg Prod.fst (hfit'.evaluate_of_size_ne hx scratch)
      exact h.trans (congrArg Prod.fst (hfit.evaluate_of_size_ne hx #[])).symm
  | replaceRates x y =>
    have hsize := hfit.stateSize_eq
    have hsize' := hfit'.stateSize_eq
    by_cases hx : x.size = e.numVars * e.graph.numNodes
    · by_cases hy : y.size = x.size
      · obtain ⟨x, rfl⟩ : ∃ x' : Vector α y.size, x'.toArray = x := ⟨⟨x, hy.symm⟩, rfl⟩
        have hk := x.size_toArray.symm.trans hx
        obtain ⟨hok, hrates⟩ := replaceRates_eq (e := e.withExecution execution) he hsize' hk x
          ⟨y, rfl⟩ scratch
        obtain ⟨hok', hrates'⟩ := replaceRates_eq he hsize hk x ⟨y, rfl⟩ #[]
        simp only [answer, hok, hok', hrates, hrates']
        rfl
      · have hy : y.size ≠ e.numVars * e.graph.numNodes := hx ▸ hy
        have h := replaceRates_of_length_ne hsize' ⟨y, rfl⟩ scratch hx hy
        simp only [answer, h, replaceRates_of_length_ne hsize ⟨y, rfl⟩ #[] hx hy]
        rfl
    · have h := replaceRates_of_size_ne hsize' (⟨y, rfl⟩ : Vector α y.size) scratch hx
      simp only [answer, h, replaceRates_of_size_ne hsize _ _ hx]
      rfl

theorem answers_eq (calls : List (Execution × Call α)) (scratch : Array α) :
    e.answers scratch calls = calls.map fun (_, call) ↦ (e.answer #[] call).1 := by
  induction calls generalizing scratch with
  | nil => rfl
  | cons call calls ih =>
    exact congrArg₂ List.cons (hfit.answer_eq he call.1 scratch call.2) (ih _)

theorem coherent (hvars : e.numVars ≠ 0) : e.Coherent where
  agree x := ⟨_, hfit.givesRates_rates he hvars x⟩
  refuse _ := hfit.refusesLength hvars
  unchanged _ _ _ _ _ _ := replaceRates_unchanged
  forgetful := hfit.answers_eq he

end StatesFit

theorem GivesRates.statesFit {x rates : Vector α (e.numVars * e.graph.numNodes)}
    (h : e.GivesRates x rates) : e.StatesFit := by
  have hsize : e.stateSize = .ok (e.numVars * e.graph.numNodes) :=
    (stateSize_eq_of_ok (h.replaced e.execution #[] x).1).trans (congrArg Except.ok x.size_toArray)
  refine ⟨hsize, ?_⟩
  by_contra hroom
  have hbroken : e.evaluate x.toArray #[] = _ := evaluate_of_not_canHold hsize #[] hroom
  have hkept : (e.evaluate x.toArray #[]).1 = _ := h.kept e.execution #[]
  rw [hbroken] at hkept
  cases hkept

theorem coherent_iff_statesFit {mass advection : CsrMatrix α} {lumped : Array α}
    {g : GraphOperator α} (hg : GraphOperator.withLumpedMass mass advection lumped = .ok g)
    {sizes : SizeArithmetic} {scheme : Scheme} {numVars : Nat}
    (he : create sizes scheme g numVars = .ok e) : e.Coherent ↔ e.StatesFit := by
  obtain ⟨hvars, rfl⟩ := create_eq_ok_iff.1 he
  have hg := GraphOperator.accepted_of_withLumpedMass hg
  constructor
  · intro h
    obtain ⟨rates, hrates⟩ := h.agree (Vector.replicate _ 0)
    exact hrates.statesFit
  · intro hfit
    exact hfit.coherent hg hvars

theorem coherent_iff_statesFit_triangle : ∃ e : Evolution ℚ,
    create .word64 .mcl .triangle 2 = .ok e ∧ (e.Coherent ↔ e.StatesFit) ∧ e.StatesFit := by
  have he : create .word64 .mcl .triangle 2 =
      .ok (⟨.mcl, .triangle, 2, .serial, .word64⟩ : Evolution ℚ) := rfl
  exact ⟨_, he, coherent_iff_statesFit GraphOperator.withLumpedMass_triangle he, rfl, rfl⟩

/-- With so many variables that no memory holds their rates, the empty state is refused by one call
for its length, and an evolution fails to make room for its rates. -/
theorem not_coherent_triangle : ∃ e : Evolution ℚ,
    create .word64 .lowOrder .triangle (2 ^ 60) = .ok e ∧
    GraphTransport.evaluate .word64 .lowOrder .triangle (2 ^ 60) #[] =
      .error (.refused (.stateSizeMismatch 3458764513820540928 0)) ∧
    (e.replaceRates #[] (#v[] : Vector ℚ 0) #[]).outcome =
      .error (.refused (.stateSizeMismatch 3458764513820540928 0)) ∧
    (e.evaluate #[] #[]).1 = .error (.broken .capacityExceeded) ∧ ¬ e.Coherent := by
  refine ⟨_, rfl, rfl, rfl, rfl, ?_⟩
  intro h
  obtain ⟨-, hkept, -⟩ := h.refuse #[] (by decide)
  have hbroken := congrArg Prod.fst (hkept .serial #[])
  cases hbroken

end Evolution

end GraphTransport
