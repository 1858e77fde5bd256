import GraphTransport.Proofs.Graph.Dense
import GraphTransport.Proofs.Graph.DenseView
import GraphTransport.Proofs.Scheme.Projection
import GraphTransport.Proofs.Scheme.LimitedFluxes

namespace GraphTransport

theorem sum_map_filterMap {α β M : Type} [AddCommMonoid M] (f : α → Option β) (h : β → M)
    (l : List α) : ((l.filterMap f).map h).sum = (l.map fun a ↦ (f a).elim 0 h).sum := by
  induction l with
  | nil => rfl
  | cons a l ih =>
    rw [List.filterMap_cons, List.map_cons, List.sum_cons, ← ih]
    cases f a with
    | none => simp
    | some b => simp

variable {F : Type} [Field F] [LinearOrder F]

theorem Edge.viscosity_zero [IsStrictOrderedRing F] (j : Nat) (m : F) :
    (⟨j, m, 0, 0⟩ : Edge F).viscosity = 0 := by
  have habs : Scalar.abs (0 : F) = 0 := abs_zero
  rw [viscosity, graphViscosity, max_self, habs]

namespace GraphOperator

variable {g : GraphOperator F} {i : Nat} {u z : Nat → F}

theorem sum_fluxAt_neighbors (g : GraphOperator F) (u z : Nat → F) (i : Nat) :
    ((g.neighbors i).map (g.fluxAt u z i)).sum = ∑ j ∈ Finset.range g.numNodes,
      g.fluxAt u z i j := by
  let limited (e : Edge F) : F := e.limitedFlux (g.endAt u z i) (g.endAt u z e.neighbor)
  have hflux : g.fluxAt u z i = fun j ↦ (g.edge? i j).elim 0 limited := by
    funext j
    rw [fluxAt]
    cases h : g.edge? i j with
    | none => rfl
    | some e => simp only [limited, Option.elim_some, neighbor_of_edge? h]
  rw [hflux, ← sum_map_filterMap, ← g.edgeList_eq_filterMap, g.sum_edgeList]

def entryEdge (g : GraphOperator F) (i j : Nat) : Edge F :=
  ⟨j, g.mass.entry i j, g.advection.entry i j, g.advection.entry j i⟩

theorem not_stored_of_edge?_eq_none {j : Nat} (hij : i ≠ j) (h : g.edge? i j = none) :
    ¬ g.pattern.Stored i j := by
  intro hstored
  obtain ⟨p, hp⟩ := hstored
  rw [edge?, if_neg hij, SparsityPattern.stores_iff_find?.1 hp] at h
  cases h

namespace Accepted

theorem entryEdge_of_edge? {j : Nat} {e : Edge F} (hg : g.Accepted) (h : g.edge? i j = some e) :
    g.entryEdge i j = e := by
  obtain ⟨hij, p, hp, he⟩ := edge?_eq_some_iff.1 h
  have hmass : g.mass.entry i j = e.mass := by
    rw [← he, CsrMatrix.entry]
    exact congrArg (Option.elim · 0 _) hp
  have hforward : g.advection.entry i j = e.forward := by
    rw [← hg.coupling_eq_entry hij, coupling, h, Option.elim_some]
  have hbackward : g.advection.entry j i = e.backward := by
    rw [← hg.coupling_eq_entry hij.symm, coupling, hg.edge?_mirror h, Option.elim_some]
    rfl
  rw [entryEdge, hmass, hforward, hbackward]
  exact congrArg (Edge.mk · _ _ _) (neighbor_of_edge? h).symm

theorem entryEdge_of_not_stored {j : Nat} (hg : g.Accepted) (h : ¬ g.pattern.Stored i j) :
    g.entryEdge i j = ⟨j, 0, 0, 0⟩ := by
  have hzero {M : CsrMatrix F} (hpattern : M.pattern = g.pattern) {k l : Nat}
      (hkl : ¬ g.pattern.Stored k l) : M.entry k l = 0 := by
    rw [CsrMatrix.entry, hpattern, SparsityPattern.find?_eq_none_iff.2 hkl, Option.elim_none]
  have hadvection : g.advection.pattern = g.pattern := hg.pattern_eq.symm
  rw [entryEdge, hzero rfl h, hzero hadvection h, hzero hadvection (mt hg.stored_comm.2 h)]

/-- What is zero for an edge without coefficients can be read off the entries of the matrices. -/
theorem elim_edge? (hg : g.Accepted) {j : Nat} (hij : i ≠ j) {f : Edge F → F}
    (hf : f ⟨j, 0, 0, 0⟩ = 0) : (g.edge? i j).elim 0 f = f (g.entryEdge i j) := by
  cases h : g.edge? i j with
  | some e => rw [Option.elim_some, hg.entryEdge_of_edge? h]
  | none =>
    rw [Option.elim_none, hg.entryEdge_of_not_stored (not_stored_of_edge?_eq_none hij h), hf]

theorem elim_targetFlux [IsStrictOrderedRing F] (hg : g.Accepted) {j : Nat} (hij : i ≠ j)
    (here there : Endpoint F) :
    ((g.edge? i j).elim 0 fun e ↦ e.targetFlux here there) =
      (g.entryEdge i j).targetFlux here there := by
  apply hg.elim_edge? hij
  rw [Edge.targetFlux, Edge.viscosity_zero]
  ring

theorem lumpedAt_mul_rateAt_eq_sum (hg : g.Accepted) (scheme : Scheme) (hi : i < g.numNodes)
    (u z : Nat → F) : g.lumpedAt i * scheme.rateAt g u z i =
      ∑ j ∈ Finset.range g.numNodes, (g.edge? i j).elim 0 fun e ↦
        e.lowOrderFlux (u i) (u j) + scheme.correction e (g.endAt u z i) (g.endAt u z j) := by
  have hmass : g.lumpedAt i ≠ 0 := (hg.lumped_getD_pos hi).ne'
  rw [Scheme.rateAt_eq_sum, mul_div_cancel₀ _ hmass]

theorem lumpedAt_mul_rateAt (hg : g.Accepted) (scheme : Scheme) (hi : i < g.numNodes)
    (u z : Nat → F) : g.lumpedAt i * scheme.rateAt g u z i = g.lumpedAt i * g.lowOrderAt u i +
      ∑ j ∈ Finset.range g.numNodes, (g.edge? i j).elim 0 fun e ↦
        scheme.correction e (g.endAt u z i) (g.endAt u z j) := by
  have hlow := hg.lumpedAt_mul_rateAt_eq_sum .lowOrder hi u z
  simp only [Scheme.rateAt, Scheme.correction, add_zero] at hlow
  rw [hlow, hg.lumpedAt_mul_rateAt_eq_sum scheme hi, ← Finset.sum_add_distrib]
  refine Finset.sum_congr rfl fun j _ ↦ ?_
  cases g.edge? i j with
  | none => simp
  | some e => rfl

theorem lumpedAt_mul_mclAt (hg : g.Accepted) (hi : i < g.numNodes) (u z : Nat → F) :
    g.lumpedAt i * g.mclAt u z i = g.lumpedAt i * g.lowOrderAt u i +
      ∑ j ∈ Finset.range g.numNodes, g.fluxAt u z i j :=
  hg.lumpedAt_mul_rateAt .mcl hi u z

theorem lumpedAt_mul_highOrderAt [IsStrictOrderedRing F] (hg : g.Accepted)
    (hi : i < g.numNodes) (u z : Nat → F) :
    g.lumpedAt i * g.highOrderAt u z i = g.lumpedAt i * g.lowOrderAt u i +
      ∑ j ∈ (Finset.range g.numNodes).erase i,
        (g.entryEdge i j).targetFlux (g.endAt u z i) (g.endAt u z j) := by
  refine (hg.lumpedAt_mul_rateAt .highOrder hi u z).trans ?_
  let target (j : Nat) : F := (g.edge? i j).elim 0 fun e ↦
    e.targetFlux (g.endAt u z i) (g.endAt u z j)
  have hdiagonal : target i = 0 := by
    simp only [target]
    rw [edge?, if_pos rfl, Option.elim_none]
  have hentries := Finset.sum_erase (Finset.range g.numNodes) hdiagonal
  refine congrArg (_ + ·) (hentries.symm.trans (Finset.sum_congr rfl fun j hj ↦ ?_))
  exact hg.elim_targetFlux (Finset.ne_of_mem_erase hj).symm _ _

theorem mapM_fetch_storage (hg : g.Accepted) {fluxes : Array F}
    (hflux : ∀ i j p, g.pattern.find? i j = some p → fluxes[p]? = some (g.fluxAt u z i j))
    (i : Nat) : (g.pattern.storage i).mapM (fetch fluxes) =
      Except.ok (ε := Violation) ((g.neighbors i).map (g.fluxAt u z i)) := by
  rw [← hg.map_column_storage, List.map_map]
  refine mapM_eq_ok_map fun p hp ↦ ?_
  exact fetch_eq_ok_iff.2 (hflux i _ p (SparsityPattern.find?_column hp))

variable [IsStrictOrderedRing F]

theorem mclAt_eq_highOrderAt (hg : g.Accepted) (hi : i < g.numNodes)
    (h : ∀ j e, g.edge? i j = some e → e.Admits (g.endAt u z i) (g.endAt u z j)
      (e.targetFlux (g.endAt u z i) (g.endAt u z j))) :
    g.mclAt u z i = g.highOrderAt u z i := by
  have hmass : g.lumpedAt i ≠ 0 := (hg.lumped_getD_pos hi).ne'
  apply mul_left_cancel₀ hmass
  refine (hg.lumpedAt_mul_rateAt .mcl hi u z).trans ?_
  refine Eq.trans ?_ (hg.lumpedAt_mul_rateAt .highOrder hi u z).symm
  congr 1
  refine Finset.sum_congr rfl fun j _ ↦ ?_
  cases he : g.edge? i j with
  | none => rfl
  | some e => exact (hg.projectsFlux he u z).eq_target (h j e he)

end Accepted

/-- The rates of node `i` under the three schemes, the fluxes at its storage range and the target
fluxes of its entries off the diagonal fit together. -/
structure Interpolates (g : GraphOperator F) (x z fluxes : Array F) (i : Nat) : Prop where
  limited : ∃ low limited offsets values, g.lowOrderRate x i = .ok low ∧
    g.mclRate x z i = .ok limited ∧ g.rowStorage i = .ok offsets ∧
    offsets.mapM (fetch fluxes) = .ok values ∧
    g.lumpedAt i * limited = g.lumpedAt i * low + values.sum
  high : ∃ low high, g.lowOrderRate x i = .ok low ∧ g.highOrderRate x z i = .ok high ∧
    g.lumpedAt i * high = g.lumpedAt i * low + ∑ j ∈ (Finset.range g.numNodes).erase i,
      (g.mass.entry i j * (valueAt z i - valueAt z j) +
        graphViscosity (g.advection.entry i j) (g.advection.entry j i) *
          (valueAt x i - valueAt x j))
  limited_eq_high : ∃ ends : Nat → Endpoint F,
    (∀ j < g.numNodes, g.endpoint x z j = .ok (ends j)) ∧
    ((∀ j ≠ i, g.pattern.Stored i j → (g.entryEdge i j).Admits (ends i) (ends j)
      ((g.entryEdge i j).targetFlux (ends i) (ends j))) → g.mclRate x z i = g.highOrderRate x z i)

theorem interpolates_of_withLumpedMass [IsStrictOrderedRing F] {mass advection : CsrMatrix F}
    {lumped : Array F} {g : GraphOperator F} (hg : withLumpedMass mass advection lumped = .ok g)
    {x z : Array F} (hx : x.size = g.numNodes) (hz : z.size = g.numNodes) :
    ∃ fluxes, g.limitedFluxes x z = .ok fluxes ∧
      ∀ i < g.numNodes, g.Interpolates x z fluxes i := by
  have hg := accepted_of_withLumpedMass hg
  obtain ⟨fluxes, hfluxes, -, hflux⟩ := hg.exists_limitedFluxes hx hz
  refine ⟨fluxes, hfluxes, fun i hi ↦ ⟨?_, ?_, ?_⟩⟩
  · refine ⟨_, _, _, _, hg.lowOrderRate_eq hi hx.ge, hg.mclRate_eq hi hx.ge hz.ge,
      hg.rowStorage_eq hi, hg.mapM_fetch_storage hflux i, ?_⟩
    rw [sum_fluxAt_neighbors, hg.lumpedAt_mul_mclAt hi]
  · exact ⟨_, _, hg.lowOrderRate_eq hi hx.ge, hg.highOrderRate_eq hi hx.ge hz.ge,
      hg.lumpedAt_mul_highOrderAt hi _ _⟩
  · refine ⟨_, fun j hj ↦ hg.endpoint_eq hj hx.ge hz.ge, fun hadmits ↦ ?_⟩
    rw [hg.mclRate_eq hi hx.ge hz.ge, hg.highOrderRate_eq hi hx.ge hz.ge,
      hg.mclAt_eq_highOrderAt hi]
    intro j e he
    obtain ⟨hij, p, hp, -⟩ := edge?_eq_some_iff.1 he
    have hstored : g.pattern.Stored i j := ⟨p, SparsityPattern.stores_iff_find?.2 hp⟩
    exact hg.entryEdge_of_edge? he ▸ hadmits j hij.symm hstored

theorem interpolates_of_withLumpedMass_triangle :
    ∃ fluxes, triangle.limitedFluxes #[0, 5, -1] #[7, -3, 2] = .ok fluxes ∧
      triangle.Interpolates #[0, 5, -1] #[7, -3, 2] fluxes 1 ∧
      triangle.mclRate #[0, 5, -1] #[7, -3, 2] 1 =
        triangle.highOrderRate #[0, 5, -1] #[7, -3, 2] 1 := by
  obtain ⟨fluxes, hfluxes, hrows⟩ := interpolates_of_withLumpedMass withLumpedMass_triangle
    (x := #[0, 5, -1]) (z := #[7, -3, 2]) rfl rfl
  have hrow := hrows 1 (by decide)
  refine ⟨fluxes, hfluxes, hrow, ?_⟩
  obtain ⟨ends, hends, h⟩ := hrow.limited_eq_high
  have hend₀ : ends 0 = ⟨0, 7, -1, 5⟩ := Except.ok.inj ((hends 0 (by decide)).symm.trans rfl)
  have hend₁ : ends 1 = ⟨5, -3, -1, 5⟩ := Except.ok.inj ((hends 1 (by decide)).symm.trans rfl)
  have hend₂ : ends 2 = ⟨-1, 2, -1, 5⟩ := Except.ok.inj ((hends 2 (by decide)).symm.trans rfl)
  apply h
  rintro j hj ⟨p, hp⟩
  have hlt := (accepted_of_withLumpedMass withLumpedMass_triangle).lt_numNodes_of_find?
    (SparsityPattern.stores_iff_find?.1 hp)
  obtain rfl | rfl : j = 0 ∨ j = 2 := by
    have hj' : j < 3 := hlt.2.1
    omega
  · rw [hend₀, hend₁]
    refine ⟨?_, ?_, ?_, ?_⟩ <;> decide +kernel
  · rw [hend₁, hend₂]
    refine ⟨?_, ?_, ?_, ?_⟩ <;> decide +kernel

end GraphOperator

end GraphTransport
