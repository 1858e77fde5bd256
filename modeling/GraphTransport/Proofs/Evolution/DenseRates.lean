import Mathlib.LinearAlgebra.Matrix.ToLin
import GraphTransport.Proofs.Evolution.Agreement
import GraphTransport.Proofs.Scheme.Interpolation

namespace GraphTransport

open scoped Matrix

variable {F : Type} [Field F] [LinearOrder F]

def CsrMatrix.dense (M : CsrMatrix F) (n : Nat) : Matrix (Fin n) (Fin n) F :=
  .of fun i j ↦ M.entry i j

def rowDifferences {n : Nat} (A : Matrix (Fin n) (Fin n) F) : Matrix (Fin n) (Fin n) F :=
  .diagonal (fun i ↦ ∑ j, A i j) - A

section Differences

variable {n : Nat} (A : Matrix (Fin n) (Fin n) F) (v : Fin n → F) (i : Fin n)

theorem rowDifferences_mulVec : (rowDifferences A *ᵥ v) i = -(A *ᵥ v) i + (∑ j, A i j) * v i := by
  rw [rowDifferences, Matrix.sub_mulVec, Pi.sub_apply, Matrix.mulVec_diagonal]
  ring

theorem sum_mul_sub : ∑ j, A i j * (v i - v j) = (rowDifferences A *ᵥ v) i := by
  have hproduct : (A *ᵥ v) i = ∑ j, A i j * v j := rfl
  rw [rowDifferences_mulVec, hproduct, Finset.sum_mul, ← Finset.sum_neg_distrib,
    ← Finset.sum_add_distrib]
  apply Finset.sum_congr rfl
  intro j _
  ring

theorem rowDifferences_mulVec_const (c : F) : rowDifferences A *ᵥ (fun _ ↦ c) = 0 := by
  funext i
  rw [← sum_mul_sub, Pi.zero_apply]
  simp

/-- The viscosities of an advection operator off the diagonal, and on it what makes every row add
up to zero. -/
def diffusion : Matrix (Fin n) (Fin n) F :=
  -rowDifferences (.of fun i j ↦ graphViscosity (A i j) (A j i))

theorem diffusion_mulVec : (diffusion A *ᵥ v) i =
    ∑ j, graphViscosity (A i j) (A j i) * (v j - v i) := by
  rw [diffusion, Matrix.neg_mulVec, Pi.neg_apply, ← sum_mul_sub, ← Finset.sum_neg_distrib]
  apply Finset.sum_congr rfl
  intro j _
  rw [Matrix.of_apply]
  ring

theorem diffusion_of_ne {i j : Fin n} (hij : i ≠ j) :
    diffusion A i j = graphViscosity (A i j) (A j i) := by
  rw [diffusion, rowDifferences, Matrix.neg_apply, Matrix.sub_apply, Matrix.diagonal_apply_ne _ hij,
    Matrix.of_apply, zero_sub, neg_neg]

theorem sum_diffusion : ∑ j, diffusion A i j = 0 := by
  have hrow := diffusion_mulVec A (fun _ ↦ 1) i
  rw [Matrix.mulVec, dotProduct] at hrow
  simpa using hrow

theorem diffusion_mulVec_const (c : F) : diffusion A *ᵥ (fun _ ↦ c) = 0 := by
  rw [diffusion, Matrix.neg_mulVec, rowDifferences_mulVec_const, neg_zero]

end Differences

namespace GraphOperator

variable (g : GraphOperator F)

def nodal (x : Array F) : Fin g.numNodes → F := fun i ↦ valueAt x i

def perMass (A : Matrix (Fin g.numNodes) (Fin g.numNodes) F) :
    Matrix (Fin g.numNodes) (Fin g.numNodes) F :=
  .diagonal (fun i ↦ (g.lumpedAt i)⁻¹) * A

def lowOrderMatrix : Matrix (Fin g.numNodes) (Fin g.numNodes) F :=
  let K := g.advection.dense g.numNodes
  g.perMass (rowDifferences K + diffusion K)

def highOrderMatrix : Matrix (Fin g.numNodes) (Fin g.numNodes) F :=
  g.perMass (rowDifferences (g.advection.dense g.numNodes) +
    rowDifferences (g.mass.dense g.numNodes) * g.lowOrderMatrix)

theorem lowOrderMatrix_mulVec_const (c : F) : g.lowOrderMatrix *ᵥ (fun _ ↦ c) = 0 := by
  rw [lowOrderMatrix, perMass, ← Matrix.mulVec_mulVec, Matrix.add_mulVec,
    rowDifferences_mulVec_const, diffusion_mulVec_const, add_zero, Matrix.mulVec_zero]

theorem highOrderMatrix_mulVec_const (c : F) : g.highOrderMatrix *ᵥ (fun _ ↦ c) = 0 := by
  rw [highOrderMatrix, perMass, ← Matrix.mulVec_mulVec, Matrix.add_mulVec, ← Matrix.mulVec_mulVec,
    lowOrderMatrix_mulVec_const, rowDifferences_mulVec_const, Matrix.mulVec_zero, add_zero,
    Matrix.mulVec_zero]

variable {g}

namespace Accepted

theorem eq_perMass_mulVec (hg : g.Accepted) {A : Matrix (Fin g.numNodes) (Fin g.numNodes) F}
    {v z : Fin g.numNodes → F} (h : ∀ i : Fin g.numNodes, g.lumpedAt i * z i = (A *ᵥ v) i) :
    z = g.perMass A *ᵥ v := by
  funext i
  have hmass : g.lumpedAt i ≠ 0 := (hg.lumped_getD_pos i.isLt).ne'
  rw [perMass, ← Matrix.mulVec_mulVec, Matrix.mulVec_diagonal, ← h, inv_mul_cancel_left₀ hmass]

theorem sum_edges (hg : g.Accepted) (i : Fin g.numNodes) {flux : Nat → Edge F → F}
    (hself : flux i (g.entryEdge i i) = 0) (hzero : ∀ j, flux j ⟨j, 0, 0, 0⟩ = 0) :
    ∑ j ∈ Finset.range g.numNodes, (g.edge? i j).elim 0 (flux j) =
      ∑ j : Fin g.numNodes, flux j (g.entryEdge i j) := by
  rw [Finset.sum_range]
  apply Finset.sum_congr rfl
  intro j _
  -- No edge shows the diagonal, and the flux there is zero whatever the matrices store.
  by_cases hij : (i : Nat) = j
  · rw [edge?, if_pos hij, Option.elim_none, ← hij, hself]
  · exact hg.elim_edge? hij (hzero j)

theorem getD_viscosity? [IsStrictOrderedRing F] (hg : g.Accepted) {i j : Nat} (hij : i ≠ j) :
    (g.viscosity? i j).getD 0 = (g.entryEdge i j).viscosity := by
  cases h : g.edge? i j with
  | none =>
    have hstored := not_stored_of_edge?_eq_none hij h
    rw [viscosity?_eq_none hstored, Option.getD_none, hg.entryEdge_of_not_stored hstored,
      Edge.viscosity_zero]
  | some e =>
    obtain rfl := neighbor_of_edge? h
    obtain ⟨-, -, hforward, hbackward⟩ :=
      hg.mem_edgeList_iff.1 (mem_edgeList.2 ⟨(hg.lt_of_edge? h).2, h⟩)
    rw [hg.viscosity?_eq_some hforward hbackward, Option.getD_some, hg.entryEdge_of_edge? h]
    rfl

theorem lumpedAt_mul_lowOrderAt_eq [IsStrictOrderedRing F] (hg : g.Accepted)
    (i : Fin g.numNodes) (u : Nat → F) :
    let K := g.advection.dense g.numNodes
    g.lumpedAt i * g.lowOrderAt u i = ((rowDifferences K + diffusion K) *ᵥ fun j ↦ u j) i := by
  intro K
  let flux (j : Nat) (e : Edge F) : F := e.lowOrderFlux (u i) (u j)
  have hself : flux i (g.entryEdge i i) = 0 := by
    simp only [flux, Edge.lowOrderFlux]
    ring
  have hzero (j : Nat) : flux j ⟨j, 0, 0, 0⟩ = 0 := by
    simp only [flux, Edge.lowOrderFlux, Edge.viscosity_zero]
    ring
  have hflux := hg.lumpedAt_mul_rateAt_eq_sum .lowOrder i.isLt u u
  simp only [Scheme.rateAt, Scheme.correction, add_zero] at hflux
  refine hflux.trans ((hg.sum_edges i hself hzero).trans ?_)
  rw [Matrix.add_mulVec, Pi.add_apply, ← sum_mul_sub, diffusion_mulVec, ← Finset.sum_add_distrib]
  apply Finset.sum_congr rfl
  intro j _
  simp only [flux, Edge.lowOrderFlux, Edge.viscosity, entryEdge, K, CsrMatrix.dense,
    Matrix.of_apply]
  ring

theorem lumpedAt_mul_highOrderAt_eq [IsStrictOrderedRing F] (hg : g.Accepted)
    (i : Fin g.numNodes) (u z : Nat → F) :
    g.lumpedAt i * g.highOrderAt u z i =
      (rowDifferences (g.advection.dense g.numNodes) *ᵥ fun j ↦ u j) i +
        (rowDifferences (g.mass.dense g.numNodes) *ᵥ fun j ↦ z j) i := by
  let flux (j : Nat) (e : Edge F) : F := e.lowOrderFlux (u i) (u j) +
    e.targetFlux (g.endAt u z i) (g.endAt u z j)
  have hflux (j : Nat) (e : Edge F) :
      flux j e = e.forward * (u i - u j) + e.mass * (z i - z j) := by
    simp only [flux, Edge.lowOrderFlux, Edge.targetFlux, endAt]
    ring
  have hself : flux i (g.entryEdge i i) = 0 := by
    rw [hflux, sub_self, sub_self, mul_zero, mul_zero, add_zero]
  have hzero (j : Nat) : flux j ⟨j, 0, 0, 0⟩ = 0 := by
    rw [hflux, zero_mul, zero_mul, add_zero]
  refine (hg.lumpedAt_mul_rateAt_eq_sum .highOrder i.isLt u z).trans
    ((hg.sum_edges i hself hzero).trans ?_)
  rw [← sum_mul_sub, ← sum_mul_sub, ← Finset.sum_add_distrib]
  apply Finset.sum_congr rfl
  intro j _
  exact hflux j (g.entryEdge i j)

theorem sum_dense_mass (hg : g.Accepted) (hlumped : g.lumpedMass = g.mass.rowSums)
    (i : Fin g.numNodes) : ∑ j, g.mass.dense g.numNodes i j = g.lumpedAt i := by
  have hcols : g.mass.numCols = g.numNodes := hg.numCols_eq
  have hrows : g.mass.numRows = g.numNodes := hg.numRows_eq
  rw [lumpedAt, hlumped, CsrMatrix.getD_rowSums (i.isLt.trans_eq hrows.symm), hcols,
    Finset.sum_range]
  rfl

end Accepted

/-- The rates `z` and `y` of a state under the low-order and the high-order scheme, on every way to
them. -/
structure GivesLinearRates (g : GraphOperator F) (x z y : Array F) : Prop where
  low_size : z.size = g.numNodes
  high_size : y.size = g.numNodes
  replaced : ∀ ignored out out' : Array F, out.size = g.numNodes → out'.size = g.numNodes →
    Scheme.lowOrder.rates g x ignored out = .ok z ∧ Scheme.highOrder.rates g x z out' = .ok y
  once : ∀ sizes : SizeArithmetic, sizes.mul 1 g.numNodes = .ok g.numNodes →
    evaluate sizes .lowOrder g 1 x = .ok z ∧ evaluate sizes .highOrder g 1 x = .ok y

theorem nodal_map_range (g : GraphOperator F) (f : Nat → F) :
    g.nodal ((List.range g.numNodes).map f).toArray = fun i : Fin g.numNodes ↦ f i := by
  funext i
  rw [nodal, valueAt, getD_of_lt (by simp)]
  simp

namespace Accepted

theorem exists_givesLinearRates [IsStrictOrderedRing F] (hg : g.Accepted) {x : Array F}
    (hx : x.size = g.numNodes) :
    let K := g.advection.dense g.numNodes
    let M := g.mass.dense g.numNodes
    ∃ z y, g.GivesLinearRates x z y ∧
      (∀ i : Fin g.numNodes, g.lumpedAt i * g.nodal z i =
        ((rowDifferences K + diffusion K) *ᵥ g.nodal x) i) ∧
      ∀ i : Fin g.numNodes, g.lumpedAt i * g.nodal y i =
        (rowDifferences K *ᵥ g.nodal x) i + (rowDifferences M *ᵥ g.nodal z) i := by
  intro K M
  let values (scheme : Scheme) : Array F :=
    ((List.range g.numNodes).map (scheme.rate g (valueAt x))).toArray
  refine ⟨values .lowOrder, values .highOrder, ⟨by simp [values], by simp [values], ?_, ?_⟩, ?_, ?_⟩
  · intro ignored out out' hout hout'
    obtain ⟨z, hz, hy⟩ := hg.rates_of_lowOrder_rates .highOrder ignored hx hout hout'
    have hlow := hg.rates_eq .lowOrder hx (z := ignored) (fun h ↦ absurd h (by decide)) hout
    obtain rfl : values .lowOrder = z := Except.ok.inj (hlow.symm.trans hz)
    exact ⟨hz, hy⟩
  · intro sizes hsize
    exact ⟨hg.evaluate_one .lowOrder hsize hx, hg.evaluate_one .highOrder hsize hx⟩
  · intro i
    rw [nodal_map_range]
    exact hg.lumpedAt_mul_lowOrderAt_eq i (valueAt x)
  · intro i
    rw [nodal_map_range, nodal_map_range]
    exact hg.lumpedAt_mul_highOrderAt_eq i (valueAt x) (g.lowOrderAt (valueAt x))

end Accepted

/-- Both schemes are linear maps that send uniform states to zero. Their rows are those of full
products with the matrices and with the diffusion between neighbours. -/
theorem linear_rates_of_withLumpedMass [IsStrictOrderedRing F] {mass advection : CsrMatrix F}
    {lumped : Array F} (hg : withLumpedMass mass advection lumped = .ok g) :
    let K := advection.dense g.numNodes
    let M := mass.dense g.numNodes
    let D := diffusion K
    (∀ i, ∑ j, D i j = 0) ∧ (∀ i j, i ≠ j → D i j = (g.viscosity? i j).getD 0) ∧
    ∃ low high : (Fin g.numNodes → F) →ₗ[F] Fin g.numNodes → F,
      (∀ c, low (fun _ ↦ c) = 0) ∧ (∀ c, high (fun _ ↦ c) = 0) ∧
      ∀ x : Array F, x.size = g.numNodes → ∃ z y, g.GivesLinearRates x z y ∧
        g.nodal z = low (g.nodal x) ∧ g.nodal y = high (g.nodal x) ∧
        (∀ i : Fin g.numNodes, g.lumpedAt i * g.nodal z i =
          -(K *ᵥ g.nodal x) i + (∑ j, K i j) * g.nodal x i + (D *ᵥ g.nodal x) i) ∧
        (fromMatrices mass advection = .ok g → ∀ i : Fin g.numNodes, g.lumpedAt i * g.nodal y i =
          -(K *ᵥ g.nodal x) i + (∑ j, K i j) * g.nodal x i + g.lumpedAt i * g.nodal z i -
            (M *ᵥ g.nodal z) i) := by
  obtain ⟨rfl, rfl, -, hg⟩ := withLumpedMass_eq_ok_iff.1 hg
  intro K M D
  refine ⟨sum_diffusion K, ?_, g.lowOrderMatrix.mulVecLin, g.highOrderMatrix.mulVecLin,
    g.lowOrderMatrix_mulVec_const, g.highOrderMatrix_mulVec_const, ?_⟩
  · intro i j hij
    rw [hg.getD_viscosity? (Fin.val_ne_of_ne hij)]
    exact diffusion_of_ne K hij
  · intro x hx
    obtain ⟨z, y, hrates, hlow, hhigh⟩ := hg.exists_givesLinearRates hx
    have hz : g.nodal z = g.lowOrderMatrix *ᵥ g.nodal x := hg.eq_perMass_mulVec hlow
    refine ⟨z, y, hrates, hz, hg.eq_perMass_mulVec ?_, ?_, ?_⟩
    · intro i
      rw [hhigh, Matrix.add_mulVec, Pi.add_apply, ← Matrix.mulVec_mulVec, hz]
    · intro i
      rw [hlow, Matrix.add_mulVec, Pi.add_apply, rowDifferences_mulVec]
    · intro hsums i
      obtain ⟨-, -, hlumped, -⟩ := withLumpedMass_eq_ok_iff.1 hsums
      rw [hhigh, rowDifferences_mulVec, rowDifferences_mulVec, hg.sum_dense_mass hlumped]
      ring

def chainPattern : SparsityPattern :=
  .ofLanes 3 [[0, 1], [0, 2], [1, 2]] (by decide) (by decide)

def chainMass : CsrMatrix ℚ := ⟨chainPattern, #[2, 1, 1, 3, 3, 1], rfl⟩

def chainAdvection : CsrMatrix ℚ := ⟨chainPattern, #[5, -1, 2, 4, -2, 7], rfl⟩

theorem linear_rates_of_withLumpedMass_chain :
    ∃ g, fromMatrices chainMass chainAdvection = .ok g ∧
    ∃ z y, g.GivesLinearRates #[1, 0, 2] z y ∧ ∀ i : Fin g.numNodes, g.lumpedAt i * g.nodal y i =
      -(chainAdvection.dense g.numNodes *ᵥ g.nodal #[1, 0, 2]) i +
        (∑ j, chainAdvection.dense g.numNodes i j) * g.nodal #[1, 0, 2] i +
        g.lumpedAt i * g.nodal z i - (chainMass.dense g.numNodes *ᵥ g.nodal z) i := by
  let g : GraphOperator ℚ := ⟨chainMass, chainAdvection, #[3, 4, 4], #[0, 2, 1, 4, 3, 5]⟩
  have hsums : fromMatrices chainMass chainAdvection = .ok g :=
    withLumpedMass_eq_ok_iff.2 ⟨rfl, rfl, by decide +kernel, by decide, by decide, rfl,
      by decide +kernel, by decide +kernel, rfl, by decide +kernel⟩
  obtain ⟨-, -, low, high, -, -, hlinear⟩ := linear_rates_of_withLumpedMass hsums
  obtain ⟨z, y, hrates, -, -, -, hrow⟩ := hlinear #[1, 0, 2] rfl
  exact ⟨g, hsums, z, y, hrates, hrow hsums⟩

end GraphOperator

end GraphTransport
