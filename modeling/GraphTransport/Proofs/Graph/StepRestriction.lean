import GraphTransport.Proofs.Graph.Dense
import GraphTransport.Proofs.Graph.DenseView
import GraphTransport.Proofs.Graph.TimeStep

namespace GraphTransport

theorem foldl_min_mem {β : Type} [LinearOrder β] (l : List β) (a : β) : l.foldl min a ∈ a :: l :=
  List.min?_mem List.min?_cons'

variable {F : Type} [Field F] [LinearOrder F]

namespace CsrMatrix

variable {K : CsrMatrix F} {i j : Nat}

theorem entry_eq_zero_iff : K.entry i j = 0 ↔ ∀ v, K.Holds i j v → v = 0 := by
  constructor
  · intro h v hv
    rw [← entry_eq_of_holds hv, h]
  · intro h
    by_cases hstored : K.pattern.Stored i j
    · obtain ⟨v, hv⟩ := stored_iff_exists_holds.1 hstored
      rw [entry_eq_of_holds hv, h v hv]
    · exact entry_eq_zero hstored

variable (K) in
def viscosity (i j : Nat) : F := max |K.entry i j| |K.entry j i|

variable (K) in
def viscositySum (i : Nat) : F := ∑ j ∈ (Finset.range K.numCols).erase i, K.viscosity i j

variable [IsStrictOrderedRing F]

theorem viscosity_nonneg : 0 ≤ K.viscosity i j := (abs_nonneg _).trans (le_max_left _ _)

theorem viscosity_eq_zero_iff : K.viscosity i j = 0 ↔ K.entry i j = 0 ∧ K.entry j i = 0 := by
  have hle : K.viscosity i j ≤ 0 ↔ |K.entry i j| ≤ 0 ∧ |K.entry j i| ≤ 0 := max_le_iff
  rw [abs_nonpos_iff, abs_nonpos_iff] at hle
  rw [← hle]
  exact viscosity_nonneg.ge_iff_eq'.symm

theorem viscositySum_eq_zero_iff : K.viscositySum i = 0 ↔
    ∀ j < K.numCols, j ≠ i → K.entry i j = 0 ∧ K.entry j i = 0 := by
  rw [viscositySum, Finset.sum_eq_zero_iff_of_nonneg fun _ _ ↦ viscosity_nonneg]
  simp only [Finset.mem_erase, Finset.mem_range, viscosity_eq_zero_iff, and_imp]
  exact forall_congr' fun j ↦ forall_comm

end CsrMatrix

namespace GraphOperator

variable {g : GraphOperator F} {i j : Nat} {dt : F}

theorem timeStepLimit_eq_none_iff :
    g.timeStepLimit = none ↔ ∀ i < g.numNodes, g.rowTimeStepAt i = none := by
  have hrows : (List.range g.numNodes).filterMap g.rowTimeStepAt = [] ↔
      ∀ i < g.numNodes, g.rowTimeStepAt i = none := by
    simp only [List.filterMap_eq_nil_iff, List.mem_range]
  rw [← hrows, timeStepLimit]
  split
  · next h => simp [h]
  · next h => simp [h]

theorem exists_row_of_timeStepLimit (h : g.timeStepLimit = some dt) :
    ∃ i < g.numNodes, g.rowTimeStepAt i = some dt := by
  rw [timeStepLimit] at h
  split at h
  · cases h
  · next first rest hrows =>
    obtain rfl := Option.some.inj h
    have hmem := foldl_min_mem rest first
    rw [← hrows] at hmem
    obtain ⟨i, hi, hrow⟩ := List.mem_filterMap.1 hmem
    exact ⟨i, List.mem_range.1 hi, hrow⟩

namespace Accepted

variable (hg : g.Accepted)

include hg

theorem numCols_advection : g.advection.numCols = g.numNodes := by
  rw [CsrMatrix.numCols, ← hg.pattern_eq]
  exact hg.numCols_eq

variable [IsStrictOrderedRing F]

theorem elim_viscosity (hij : i ≠ j) :
    (g.edge? i j).elim 0 Edge.viscosity = g.advection.viscosity i j := by
  cases h : g.edge? i j with
  | some e =>
    obtain ⟨-, -, -, hforward, hbackward⟩ := hg.edge?_eq_some_iff_holds.1 h
    rw [Option.elim_some, CsrMatrix.viscosity, CsrMatrix.entry_eq_of_holds hforward,
      CsrMatrix.entry_eq_of_holds hbackward]
    rfl
  | none =>
    have hstored : ¬ g.pattern.Stored i j := by
      intro hstored
      obtain ⟨p, hp⟩ := hstored
      rw [edge?, if_neg hij, SparsityPattern.stores_iff_find?.1 hp] at h
      cases h
    have hentry : g.advection.entry i j = 0 := CsrMatrix.entry_eq_zero (hg.pattern_eq ▸ hstored)
    have hentry' : g.advection.entry j i = 0 :=
      CsrMatrix.entry_eq_zero (hg.pattern_eq ▸ mt hg.stored_comm.2 hstored)
    exact (CsrMatrix.viscosity_eq_zero_iff.2 ⟨hentry, hentry'⟩).symm

theorem viscositySumAt_eq (i : Nat) : g.viscositySumAt i = g.advection.viscositySum i := by
  have hself : (g.edge? i i).elim 0 Edge.viscosity = 0 := by
    rw [edge?, if_pos rfl, Option.elim_none]
  rw [viscositySumAt_eq_sum, CsrMatrix.viscositySum, hg.numCols_advection,
    ← Finset.sum_erase (f := fun j ↦ (g.edge? i j).elim 0 Edge.viscosity) _ hself]
  exact Finset.sum_congr rfl fun j hj ↦ hg.elim_viscosity (Finset.ne_of_mem_erase hj).symm

theorem rowTimeStepAt_eq_none_iff : g.rowTimeStepAt i = none ↔ g.advection.viscositySum i = 0 := by
  rw [rowTimeStepAt, ← hg.viscositySumAt_eq]
  split
  · next hsum => simp [hsum.ne']
  · next hsum =>
    have hzero : g.viscositySumAt i = 0 := le_antisymm (not_lt.1 hsum) viscositySumAt_nonneg
    simp [hzero]

theorem timeStepLimit_eq_none_iff_holds : g.timeStepLimit = none ↔
    ∀ i j k, i ≠ j → g.advection.Holds i j k → k = 0 := by
  simp only [timeStepLimit_eq_none_iff, hg.rowTimeStepAt_eq_none_iff,
    CsrMatrix.viscositySum_eq_zero_iff, hg.numCols_advection]
  constructor
  · intro h i j k hij hk
    obtain ⟨p, hp, -⟩ := id hk
    obtain ⟨hi, hj, -⟩ :=
      hg.lt_numNodes_of_find? (SparsityPattern.stores_iff_find?.1 (hg.advection_stores_iff.1 hp))
    exact CsrMatrix.entry_eq_zero_iff.1 (h i hi j hj hij.symm).1 k hk
  · intro h i _ j _ hji
    exact ⟨CsrMatrix.entry_eq_zero_iff.2 fun k ↦ h i j k hji.symm,
      CsrMatrix.entry_eq_zero_iff.2 fun k ↦ h j i k hji⟩

theorem pos_of_timeStepLimit (h : g.timeStepLimit = some dt) : 0 < dt := by
  obtain ⟨i, hi, hrow⟩ := exists_row_of_timeStepLimit h
  have hmass : 0 < g.lumpedAt i := hg.lumped_getD_pos hi
  rw [rowTimeStepAt] at hrow
  split_ifs at hrow with hsum
  obtain rfl := Option.some.inj hrow
  exact div_pos hmass (mul_pos (by norm_num) hsum)

theorem le_iff_of_timeStepLimit (h : g.timeStepLimit = some dt) (s : F) :
    (∀ i m, g.lumpedMass[i]? = some m → 2 * s * g.advection.viscositySum i ≤ m) ↔ s ≤ dt := by
  have hlimit : (∀ s' ∈ g.timeStepLimit, s ≤ s') ↔
      ∀ i < g.numNodes, 2 * s * g.viscositySumAt i ≤ g.lumpedAt i := hg.le_timeStepLimit_iff
  simp only [h, Option.mem_def, Option.some.injEq, forall_eq'] at hlimit
  rw [hlimit]
  constructor
  · intro hrows i hi
    rw [hg.viscositySumAt_eq]
    exact hrows i _ (fetch_eq_ok_iff.1 (g.fetch_lumpedMass hi))
  · intro hrows i m hm
    obtain ⟨hi, rfl⟩ := Array.getElem?_eq_some_iff.1 hm
    have hrow := hrows i hi
    rwa [hg.viscositySumAt_eq, lumpedAt, getD_of_lt hi] at hrow

end Accepted

/-- What a limit of the step says about an advection operator and the lumped masses. -/
structure IsStepLimit (advection : CsrMatrix F) (lumped : Array F) (limit : Option F) : Prop where
  eq_none_iff : limit = none ↔ ∀ i j k, i ≠ j → advection.Holds i j k → k = 0
  pos : ∀ dt, limit = some dt → 0 < dt
  le_iff : ∀ dt, limit = some dt → ∀ s,
    (∀ i m, lumped[i]? = some m → 2 * s * advection.viscositySum i ≤ m) ↔ s ≤ dt

/-- The step of a graph is restricted unless no edge has viscosity, and then the restriction is
sharp: the steps up to the limit are those in which no node sends out more than its lumped mass. -/
theorem isStepLimit_of_withLumpedMass [IsStrictOrderedRing F] {mass advection : CsrMatrix F}
    {lumped : Array F} (h : withLumpedMass mass advection lumped = .ok g) :
    ∃ limit, g.stableTimeStep? = .ok limit ∧ IsStepLimit advection lumped limit := by
  obtain ⟨rfl, rfl, rfl, hg⟩ := withLumpedMass_eq_ok_iff.1 h
  refine ⟨g.timeStepLimit, hg.stableTimeStep?_eq, hg.timeStepLimit_eq_none_iff_holds, ?_, ?_⟩
  · intro dt hdt
    exact hg.pos_of_timeStepLimit hdt
  · intro dt hdt s
    exact hg.le_iff_of_timeStepLimit hdt s

theorem isStepLimit_of_withLumpedMass_triangle :
    triangle.stableTimeStep? = .ok (some (1 / 5)) ∧
      IsStepLimit triangleAdvection #[1, 2, 3] (some (1 / 5)) := by
  obtain ⟨limit, hlimit, h⟩ := isStepLimit_of_withLumpedMass withLumpedMass_triangle
  obtain rfl := Except.ok.inj (stableTimeStep?_triangle.symm.trans hlimit)
  exact ⟨hlimit, h⟩

end GraphOperator

end GraphTransport
