import GraphTransport.Proofs.Scalar.Exact
import GraphTransport.Proofs.Evolution.Rates
import GraphTransport.Graph.TotalMass

namespace GraphTransport

/-- The length of a state is exact, and its totals can be held. -/
structure SizeArithmetic.Fits (sizes : SizeArithmetic) (numVars n : Nat) : Prop where
  mul_eq : sizes.mul numVars n = .ok (numVars * n)
  canHold : sizes.canHold numVars

theorem SizeArithmetic.fits_word64 {numVars n : Nat} (hmul : numVars * n < 2 ^ 64)
    (hhold : 8 * numVars < 2 ^ 63) : word64.Fits numVars n :=
  ⟨if_pos hmul, decide_eq_true hhold⟩

namespace GraphOperator

section Blocks

variable {α : Type} [Scalar α] {g : GraphOperator α} {sizes : SizeArithmetic} {numVars : Nat}
  {x : Array α}

theorem totalMass_eq_map (hvars : numVars ≠ 0) (hsizes : sizes.Fits numVars g.numNodes)
    (hx : x.size = numVars * g.numNodes) : g.totalMass sizes x numVars =
      .ok ((List.range numVars).map fun var ↦
        g.weightedSum (x.extract (var * g.numNodes) ((var + 1) * g.numNodes))).toArray := by
  have htotals : (List.range numVars).mapM (fun var ↦
      return g.weightedSum (← variableBlock x g.numNodes var)) =
      Except.ok (ε := Violation) ((List.range numVars).map fun var ↦
        g.weightedSum (x.extract (var * g.numNodes) ((var + 1) * g.numNodes))) := by
    refine mapM_eq_ok_map fun var hvar ↦ ?_
    have hblock : (var + 1) * g.numNodes ≤ x.size :=
      (Nat.mul_le_mul_right _ (List.mem_range.1 hvar)).trans_eq hx.symm
    rw [variableBlock, if_pos hblock, ok_bind]
    rfl
  have hreserve : sizes.reserve numVars = .ok () := by
    rw [SizeArithmetic.reserve, if_pos hsizes.canHold]
  simp only [totalMass, hvars, if_false, hsizes.mul_eq, Fault.ofViolation_ok, hx, ne_eq,
    not_true_eq_false, hreserve, ok_bind, htotals]
  rfl

theorem totalMass_of_size_ne (hvars : numVars ≠ 0) {expected : Nat}
    (hmul : sizes.mul numVars g.numNodes = .ok expected) (hx : x.size ≠ expected) :
    g.totalMass sizes x numVars =
      .error (.refused (.stateSizeMismatch expected x.size)) := by
  simp only [totalMass, hvars, if_false, hmul, Fault.ofViolation_ok, ok_bind, hx, ne_eq,
    not_false_eq_true, if_true]
  rfl

theorem canHold_of_totalMass_eq_ok {totals : Array α}
    (h : g.totalMass sizes x numVars = .ok totals) : sizes.canHold numVars := by
  by_contra hroom
  have hreserve : sizes.reserve numVars = .error .capacityExceeded := by
    rw [SizeArithmetic.reserve, if_neg hroom]
  unfold totalMass at h
  simp only [hreserve] at h
  split at h
  · cases h
  · obtain ⟨expected, -, h⟩ := bind_eq_ok.1 h
    split at h <;> cases h

end Blocks

variable {F : Type} [Field F] [LinearOrder F] {g : GraphOperator F}

def massOf (g : GraphOperator F) (u : Nat → F) : F :=
  ∑ i ∈ Finset.range g.numNodes, g.lumpedAt i * u i

theorem massOf_congr {u u' : Nat → F} (h : ∀ i < g.numNodes, u i = u' i) :
    g.massOf u = g.massOf u' :=
  Finset.sum_congr rfl fun i hi ↦ by rw [h i (Finset.mem_range.1 hi)]

theorem weightedSum_eq {x : Array F} (hx : x.size = g.numNodes) :
    g.weightedSum x = g.massOf (valueAt x) := by
  have hlumped : g.lumpedMass.toList = (List.range g.numNodes).map g.lumpedAt :=
    toList_eq_map_range g.lumpedMass
  have hvalues : x.toList = (List.range g.numNodes).map (valueAt x) :=
    hx ▸ toList_eq_map_range x
  rw [weightedSum, ← Array.foldl_toList, Array.toList_zip, hlumped, hvalues, List.zip_map',
    List.foldl_map, foldl_eq_add_sum (fun _ _ _ ↦ rfl), zero_add]
  rfl

theorem totalMass_eq {sizes : SizeArithmetic} {numVars : Nat} (hvars : numVars ≠ 0)
    (hsizes : sizes.Fits numVars g.numNodes) {x : Array F} (hx : x.size = numVars * g.numNodes) :
    g.totalMass sizes x numVars =
      .ok ((List.range numVars).map fun var ↦ g.massOf (variableAt x g.numNodes var)).toArray := by
  rw [totalMass_eq_map hvars hsizes hx]
  congr 2
  apply List.map_congr_left
  intro var hvar
  have hblock : (var + 1) * g.numNodes ≤ x.size :=
    (Nat.mul_le_mul_right _ (List.mem_range.1 hvar)).trans_eq hx.symm
  rw [weightedSum_eq (size_block hblock)]
  exact massOf_congr fun i hi ↦ valueAt_extract x hi hblock

end GraphOperator

end GraphTransport
