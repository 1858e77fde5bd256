import GraphTransport.Proofs.Evolution.Passes
import GraphTransport.Proofs.RungeKutta.StrongStability
import GraphTransport.Proofs.Scheme.Pointwise

namespace GraphTransport

variable {α : Type} [Scalar α]

def variableAt (x : Array α) (n var : Nat) (i : Nat) : α := x.getD (var * n + i) 0

theorem variableAt_zero (x : Array α) (n : Nat) : variableAt x n 0 = valueAt x := by
  funext i
  rw [variableAt, Nat.zero_mul, Nat.zero_add, valueAt]

/-- The rate of the component at position `p` of a state. -/
def Scheme.componentRate (scheme : Scheme) (g : GraphOperator α) (x : Array α) (p : Nat) : α :=
  scheme.rate g (variableAt x g.numNodes (p / g.numNodes)) (p % g.numNodes)

theorem Scheme.componentRate_block (scheme : Scheme) (g : GraphOperator α) (x : Array α)
    (var : Nat) {i : Nat} (hi : i < g.numNodes) :
    scheme.componentRate g x (var * g.numNodes + i) =
      scheme.rate g (variableAt x g.numNodes var) i := by
  have hvar : (var * g.numNodes + i) / g.numNodes = var := by
    rw [Nat.add_comm, Nat.add_mul_div_right _ _ (by omega), Nat.div_eq_of_lt hi, Nat.zero_add]
  have hnode : (var * g.numNodes + i) % g.numNodes = i := by
    rw [Nat.add_comm, Nat.add_mul_mod_self_right, Nat.mod_eq_of_lt hi]
  rw [componentRate, hvar, hnode]

theorem block_lt {var numVars i n : Nat} (hvar : var < numVars) (hi : i < n) :
    var * n + i < numVars * n := by
  have h := Nat.mul_le_mul_right n hvar
  rw [Nat.succ_mul] at h
  omega

theorem variableAt_toArray {k : Nat} (x : Vector α k) {n var i : Nat} (h : var * n + i < k) :
    variableAt x.toArray n var i = x[var * n + i] := by
  rw [variableAt, getD_of_lt (by simpa using h), Vector.getElem_toArray]

omit [Scalar α] in
theorem size_block {x : Array α} {n var : Nat} (hx : (var + 1) * n ≤ x.size) :
    (x.extract (var * n) ((var + 1) * n)).size = n := by
  rw [Array.size_extract, Nat.min_eq_left hx, Nat.succ_mul, Nat.add_sub_cancel_left]

theorem valueAt_extract (x : Array α) {n var : Nat} {i : Nat} (hi : i < n)
    (hx : (var + 1) * n ≤ x.size) :
    valueAt (x.extract (var * n) ((var + 1) * n)) i = variableAt x n var i := by
  have hin : i < (x.extract (var * n) ((var + 1) * n)).size := hi.trans_eq (size_block hx).symm
  have hout : var * n + i < x.size := by
    rw [Nat.succ_mul] at hx
    omega
  rw [valueAt, variableAt, getD_of_lt hin, getD_of_lt hout, Array.getElem_extract]

structure RowOrders where
  first : List Nat
  second : List Nat

def RowOrders.Cover (orders : RowOrders) (n : Nat) : Prop :=
  (∀ i, i ∈ orders.first ↔ i < n) ∧ ∀ i, i ∈ orders.second ↔ i < n

def evaluateInOrder {n k : Nat} (scheme : Scheme) (g : GraphOperator α) (orders : RowOrders)
    (x : Array α) (base : Nat) (y : Vector α k) (z : Vector α n) :
    Except Violation (Vector α k × Vector α n) := do
  let z ← if scheme.needsLowOrderRates then
    writeInOrder (g.lowOrderRate x) 0 orders.first z else pure z
  let y ← writeInOrder (scheme.rowRate g x z.toArray) base orders.second y
  return (y, z)

def evaluateAllInOrder {n k : Nat} (scheme : Scheme) (g : GraphOperator α)
    (orders : Nat → RowOrders) (x : Array α) (y : Vector α k) (z : Vector α n) :
    Except Violation (Vector α k × Vector α n) :=
  (List.range (x.size / n)).foldlM (fun (y, z) var ↦
    evaluateInOrder scheme g (orders var) (x.extract (var * n) ((var + 1) * n)) (var * n) y z)
    (y, z)

theorem evaluateVariables_eq_inOrder {n k : Nat} (scheme : Scheme) (g : GraphOperator α)
    (schedule : Schedule) (x : Array α) (y : Vector α k) (z : Vector α n) :
    evaluateVariables scheme g schedule x y z =
      evaluateAllInOrder scheme g (fun _ ↦ ⟨schedule.flatten, schedule.flatten⟩) x y z := by
  simp only [evaluateVariables, evaluateVariable, Schedule.run_eq_writeInOrder]
  rfl

namespace GraphOperator.Accepted

variable {g : GraphOperator α} {k : Nat}

/-- The passes for the rates of one variable change the block behind `base` only. -/
theorem evaluateInOrder_eq (hg : g.Accepted) (scheme : Scheme) {orders : RowOrders}
    (horders : orders.Cover g.numNodes) {x : Array α} (hx : x.size = g.numNodes) (base : Nat)
    (y : Vector α k) (z : Vector α g.numNodes) :
    ∃ y' z', evaluateInOrder scheme g orders x base y z = .ok (y', z') ∧
      ∀ p (hp : p < k), y'[p] =
        if base ≤ p ∧ p - base < g.numNodes then scheme.rate g (valueAt x) (p - base)
        else y[p] := by
  obtain ⟨hfirst, hsecond⟩ := horders
  have hpass (z : Vector α g.numNodes)
      (hz : scheme.needsLowOrderRates →
        ∀ i (hi : i < g.numNodes), z[i] = g.lowOrderAt (valueAt x) i) :
      ∀ i ∈ orders.second,
        scheme.rowRate g x z.toArray i = .ok (scheme.rate g (valueAt x) i) := by
    intro i hi
    have hi := (hsecond i).1 hi
    rw [hg.rowRate_eq scheme hi hx.ge (fun _ ↦ z.size_toArray.ge)]
    congr 1
    cases scheme with
    | lowOrder => rfl
    | highOrder | mcl =>
      refine Scheme.rateAt_congr _ (fun _ _ ↦ rfl) (fun j hj ↦ ?_) hi
      rw [← hz rfl j hj]
      rw [valueAt, getD_of_lt (by simpa using hj), Vector.getElem_toArray]
  unfold evaluateInOrder
  by_cases hneeds : scheme.needsLowOrderRates
  · obtain ⟨z', hz', hvalues⟩ := writeInOrder_eq
      (fun i hi ↦ hg.lowOrderRate_eq ((hfirst i).1 hi) hx.ge) 0 z
    have hz (_ : scheme.needsLowOrderRates) (i : Nat) (hi : i < g.numNodes) :
        z'[i] = g.lowOrderAt (valueAt x) i := by
      rw [hvalues i hi, if_pos ⟨Nat.zero_le i, (hfirst _).2 hi⟩]
      rfl
    obtain ⟨y', hy', hrates⟩ := writeInOrder_eq (hpass z' hz) base y
    refine ⟨y', z', ?_, ?_⟩
    · simp only [if_pos hneeds, hz', ok_bind, hy']
      rfl
    · simpa only [hsecond] using hrates
  · obtain ⟨y', hy', hrates⟩ := writeInOrder_eq (hpass z fun h ↦ absurd h hneeds) base y
    refine ⟨y', z, ?_, ?_⟩
    · simp only [if_neg hneeds, pure_bind, hy', ok_bind]
      rfl
    · simpa only [hsecond] using hrates

theorem evaluateAllInOrder_eq (hg : g.Accepted) (scheme : Scheme) {orders : Nat → RowOrders}
    (horders : ∀ var, (orders var).Cover g.numNodes) {x : Array α}
    (hx : g.numNodes ∣ x.size) (y : Vector α k) (z : Vector α g.numNodes) :
    ∃ y' z', evaluateAllInOrder scheme g orders x y z = .ok (y', z') ∧
      ∀ p (hp : p < k), y'[p] = if p < x.size then scheme.componentRate g x p else y[p] := by
  -- After `m` variables the first `m` blocks hold their rates.
  have hblocks (m : Nat) (hm : m ≤ x.size / g.numNodes) :
      ∃ y' z', (List.range m).foldlM (fun (y, z) var ↦ evaluateInOrder scheme g (orders var)
        (x.extract (var * g.numNodes) ((var + 1) * g.numNodes)) (var * g.numNodes) y z) (y, z) =
        .ok (y', z') ∧ ∀ p (hp : p < k),
          y'[p] = if p < m * g.numNodes then scheme.componentRate g x p else y[p] := by
    induction m with
    | zero => exact ⟨y, z, rfl, by simp⟩
    | succ m ih =>
      obtain ⟨y₁, z₁, hrun, hy₁⟩ := ih (by omega)
      have hfits : (m + 1) * g.numNodes ≤ x.size :=
        (Nat.mul_le_mul_right _ hm).trans (Nat.div_mul_le_self _ _)
      obtain ⟨y₂, z₂, hstep, hy₂⟩ :=
        hg.evaluateInOrder_eq scheme (horders m) (size_block hfits) (m * g.numNodes) y₁ z₁
      refine ⟨y₂, z₂, ?_, fun p hp ↦ ?_⟩
      · rw [List.range_succ, List.foldlM_append, hrun, ok_bind]
        simpa using hstep
      · rw [hy₂ p hp, hy₁ p hp]
        have hsucc : (m + 1) * g.numNodes = m * g.numNodes + g.numNodes := Nat.succ_mul _ _
        by_cases hlt : p < m * g.numNodes
        · rw [if_neg (by omega), if_pos hlt, if_pos (by omega)]
        · by_cases hin : p - m * g.numNodes < g.numNodes
          · rw [if_pos ⟨by omega, hin⟩, if_pos (by omega)]
            obtain ⟨i, rfl⟩ := Nat.exists_eq_add_of_le (Nat.le_of_not_lt hlt)
            rw [Nat.add_sub_cancel_left] at hin ⊢
            rw [scheme.componentRate_block g x m hin]
            exact scheme.rate_congr (fun j hj ↦ valueAt_extract x hj hfits) hin
          · rw [if_neg (by omega), if_neg hlt, if_neg (by omega)]
  obtain ⟨y', z', hrun, hy'⟩ := hblocks _ le_rfl
  rw [Nat.div_mul_cancel hx] at hy'
  exact ⟨y', z', hrun, hy'⟩

theorem evaluateVariables_eq (hg : g.Accepted) (scheme : Scheme) (execution : Execution)
    {x : Array α} (hx : g.numNodes ∣ x.size) (y : Vector α k) (z : Vector α g.numNodes) :
    ∃ y' z', evaluateVariables scheme g (execution.schedule g.numNodes) x y z = .ok (y', z') ∧
      ∀ p (hp : p < k), y'[p] = if p < x.size then scheme.componentRate g x p else y[p] := by
  rw [evaluateVariables_eq_inOrder]
  apply hg.evaluateAllInOrder_eq scheme _ hx
  intro var
  simp [RowOrders.Cover, Execution.flatten_schedule]

theorem evaluate_eq (hg : g.Accepted) (scheme : Scheme) {sizes : SizeArithmetic} {numVars : Nat}
    (hvars : numVars ≠ 0) (hsize : sizes.mul numVars g.numNodes = .ok (numVars * g.numNodes))
    {x : Array α} (hx : x.size = numVars * g.numNodes) :
    evaluate sizes scheme g numVars x =
      .ok (Array.ofFn fun p : Fin x.size ↦ scheme.componentRate g x p) := by
  obtain ⟨y, z, hrun, hy⟩ := hg.evaluateVariables_eq scheme .serial (hx ▸ Nat.dvd_mul_left _ _)
    (Vector.replicate x.size 0) (Vector.replicate g.numNodes 0)
  have hrates : y.toArray = Array.ofFn fun p : Fin x.size ↦ scheme.componentRate g x p := by
    refine Array.ext (by simp) fun p hp hp' ↦ ?_
    have hp : p < x.size := hp.trans_eq y.size_toArray
    rw [Vector.getElem_toArray, hy p hp, if_pos hp, Array.getElem_ofFn]
  simp only [evaluate, hvars, if_false, hsize, Fault.ofViolation_ok, hx, ne_eq, not_true_eq_false,
    hrun, ok_bind, ← hrates]
  rfl

theorem exists_rates (hg : g.Accepted) (scheme : Scheme) {sizes : SizeArithmetic} {numVars : Nat}
    (hvars : numVars ≠ 0) (hsize : sizes.mul numVars g.numNodes = .ok (numVars * g.numNodes))
    {x : Array α} (hx : x.size = numVars * g.numNodes) :
    ∃ y, evaluate sizes scheme g numVars x = .ok y ∧ y.size = x.size ∧
      ∀ var < numVars, ∀ i < g.numNodes,
        variableAt y g.numNodes var i = scheme.rate g (variableAt x g.numNodes var) i := by
  refine ⟨_, hg.evaluate_eq scheme hvars hsize hx, Array.size_ofFn, fun var hvar i hi ↦ ?_⟩
  have hposition : var * g.numNodes + i < x.size := (block_lt hvar hi).trans_eq hx.symm
  rw [variableAt, getD_of_lt (hposition.trans_eq Array.size_ofFn.symm), Array.getElem_ofFn,
    scheme.componentRate_block g x var hi]

theorem evaluate_one (hg : g.Accepted) (scheme : Scheme) {sizes : SizeArithmetic}
    (hsize : sizes.mul 1 g.numNodes = .ok g.numNodes) {x : Array α} (hx : x.size = g.numNodes) :
    evaluate sizes scheme g 1 x =
      .ok ((List.range g.numNodes).map (scheme.rate g (valueAt x))).toArray := by
  have hone : 1 * g.numNodes = g.numNodes := one_mul _
  rw [hg.evaluate_eq scheme one_ne_zero (hone.symm ▸ hsize) (hx.trans hone.symm)]
  congr 1
  apply Array.ext
  · simpa using hx
  · intro p hp hp'
    have hnode : p < g.numNodes := by simpa using hp'
    have hblock := scheme.componentRate_block g x 0 hnode
    rw [Nat.zero_mul, Nat.zero_add, variableAt_zero] at hblock
    simpa using hblock

end GraphOperator.Accepted

theorem evaluate_of_size_ne {sizes : SizeArithmetic} {scheme : Scheme} {g : GraphOperator α}
    {numVars expected : Nat} (hvars : numVars ≠ 0)
    (hmul : sizes.mul numVars g.numNodes = .ok expected) {x : Array α} (hx : x.size ≠ expected) :
    evaluate sizes scheme g numVars x = .error (.refused (.stateSizeMismatch expected x.size)) := by
  simp only [evaluate, hvars, if_false, hmul, Fault.ofViolation_ok, ok_bind, hx, ne_eq,
    not_false_eq_true, if_true]
  rfl

namespace Evolution

variable {e : Evolution α} {k : Nat}

omit [Scalar α] in
theorem create_eq_ok_iff {sizes : SizeArithmetic} {scheme : Scheme} {g : GraphOperator α}
    {numVars : Nat} : create sizes scheme g numVars = .ok e ↔
      numVars ≠ 0 ∧ ⟨scheme, g, numVars, .default, sizes⟩ = e := by
  rw [create]
  by_cases h : numVars = 0 <;> simp [h]

def rates (e : Evolution α) (x : Vector α k) : Vector α k :=
  Vector.ofFn fun p ↦ e.scheme.componentRate e.graph x.toArray p

theorem variableAt_rates (x : Vector α k) {var i : Nat} (hi : i < e.graph.numNodes)
    (hk : var * e.graph.numNodes + i < k) :
    variableAt (e.rates x).toArray e.graph.numNodes var i =
      e.scheme.rate e.graph (variableAt x.toArray e.graph.numNodes var) i := by
  rw [variableAt_toArray _ hk, rates, Vector.getElem_ofFn, e.scheme.componentRate_block _ _ _ hi]

theorem replaceRates_eq (he : e.graph.Accepted)
    (hsize : e.stateSize = .ok (e.numVars * e.graph.numNodes))
    (hk : k = e.numVars * e.graph.numNodes) (x y : Vector α k) (scratch : Array α) :
    (e.replaceRates x.toArray y scratch).outcome = .ok () ∧
      (e.replaceRates x.toArray y scratch).rates = e.rates x := by
  rw [← hk] at hsize
  by_cases hn : e.graph.numNodes = 0
  · have hk₀ : k = 0 := by rw [hk, hn, Nat.mul_zero]
    subst hk₀
    simp only [replaceRates, hsize, x.size_toArray, hn, ne_eq, not_true_eq_false, if_false, if_true,
      true_and]
    exact Vector.ext fun p hp ↦ absurd hp (Nat.not_lt_zero p)
  · have hdvd : e.graph.numNodes ∣ x.toArray.size :=
      (x.size_toArray.trans hk).symm ▸ Nat.dvd_mul_left _ _
    obtain ⟨y', z', hrun, hy'⟩ := he.evaluateVariables_eq e.scheme e.execution hdvd y
      (resized scratch e.graph.numNodes)
    simp only [replaceRates, hsize, x.size_toArray, hn, ne_eq, not_true_eq_false, if_false, hrun,
      true_and]
    refine Vector.ext fun p hp ↦ ?_
    rw [hy' p hp, if_pos (hp.trans_eq x.size_toArray.symm), rates, Vector.getElem_ofFn]

theorem computes_rates (he : e.graph.Accepted)
    (hsize : e.stateSize = .ok (e.numVars * e.graph.numNodes))
    (hk : k = e.numVars * e.graph.numNodes) :
    (RateFunction.ofEvolution e).Computes (e.rates (k := k)) :=
  fun x y scratch ↦ replaceRates_eq he hsize hk x y scratch

end Evolution

section Exact

variable {F : Type} [Field F] [LinearOrder F] {k : Nat}

theorem variableAt_between (a : F) (x y : Vector F k) {n var i : Nat} (hp : var * n + i < k) :
    variableAt (between a x y).toArray n var i =
      (1 - a) * variableAt x.toArray n var i + a * variableAt y.toArray n var i := by
  rw [variableAt_toArray _ hp, variableAt_toArray _ hp, variableAt_toArray _ hp, getElem_between]

theorem Evolution.variableAt_eulerMap (e : Evolution F) (dt : F) (x : Vector F k) {var i : Nat}
    (hi : i < e.graph.numNodes) (hp : var * e.graph.numNodes + i < k) :
    variableAt (eulerMap e.rates dt x).toArray e.graph.numNodes var i =
      variableAt x.toArray e.graph.numNodes var i +
        dt * e.scheme.rate e.graph (variableAt x.toArray e.graph.numNodes var) i := by
  rw [variableAt_toArray _ hp, getElem_eulerMap, ← variableAt_toArray _ hp,
    ← variableAt_toArray _ hp, variableAt_rates x hi hp]

end Exact

end GraphTransport
