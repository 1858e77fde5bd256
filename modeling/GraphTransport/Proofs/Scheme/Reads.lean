import GraphTransport.Proofs.Graph.DenseView
import GraphTransport.Proofs.Graph.Rows
import GraphTransport.Proofs.Scheme.LimitedFluxes

namespace GraphTransport

variable {α : Type} [Scalar α]

/-- Running along the columns of row `i` and along its edges together meets every column off the
diagonal with the edge to it, whatever is computed from the two. -/
structure Aligned (i : Nat) (columns : List Nat) (es : List (Edge α)) : Prop where
  follows : es.map Edge.neighbor = columns.filter (· != i)
  paired : ∃ edgeTo : Nat → Edge α,
    (∀ j ∈ columns, j ≠ i → edgeTo j ∈ es ∧ (edgeTo j).neighbor = j) ∧
    ∀ flux, alignFluxes i flux columns es =
      columns.mapM fun j ↦ if j = i then .ok 0 else flux j (edgeTo j)

namespace GraphOperator

/-- What is read for node `i` is in range: row `i` can be cut out of the arrays, its columns are
nodes, the graph is traversed like the cut row, and all rates exist. -/
structure ReadsInRange (g : GraphOperator α) (x z : Array α) (i : Nat) : Prop where
  row : ∃ row es bounds, g.row i = .ok row ∧ (∀ j ∈ row.columns, j < g.numNodes) ∧
    g.neighborhood i = .ok row.columns ∧ row.edges = .ok es ∧ g.edges i = .ok es ∧
    Aligned i row.columns es ∧ row.localBounds x = .ok bounds ∧ g.localBounds i x = .ok bounds
  lowOrder : ∃ rate, g.lowOrderRate x i = .ok rate
  highOrder : ∃ rate, g.highOrderRate x z i = .ok rate
  limited : ∃ rate, g.mclRate x z i = .ok rate

/-- One flux is stored for every entry: zero on the diagonal, and off it the limited flux of the
edge with the coefficients of the entry, between ends that have their own local bounds. -/
structure StoresFluxes (mass advection : CsrMatrix α) (g : GraphOperator α)
    (x z fluxes : Array α) : Prop where
  size_eq : fluxes.size = g.nnz
  diagonal : ∀ i p, mass.pattern.Stores i i p → fluxes[p]? = some 0
  offDiagonal : ∀ i j p, i ≠ j → mass.pattern.Stores i j p → ∃ m k k' bounds bounds',
    mass.Holds i j m ∧ advection.Holds i j k ∧ advection.Holds j i k' ∧
    g.localBounds i x = .ok bounds ∧ g.localBounds j x = .ok bounds' ∧
    fluxes[p]? = some (Edge.limitedFlux ⟨j, m, k, k'⟩ ⟨valueAt x i, valueAt z i, bounds⟩
      ⟨valueAt x j, valueAt z j, bounds'⟩)

variable {g : GraphOperator α} {i : Nat} {x z : Array α}

theorem aligned_edgeList (g : GraphOperator α) (i : Nat) :
    Aligned i (g.neighbors i) (g.edgeList i) where
  follows := by
    rw [g.edgeList_eq_map, List.map_map]
    exact List.map_id _
  paired := by
    refine ⟨g.edgeTo i, fun j hj hne ↦ ⟨?_, rfl⟩, fun flux ↦ ?_⟩
    · rw [g.edgeList_eq_map]
      exact List.mem_map_of_mem (List.mem_filter.2 ⟨hj, bne_iff_ne.2 hne⟩)
    · rw [g.edgeList_eq_map, alignFluxes_map]

namespace Accepted

theorem readsInRange (hg : g.Accepted) (hx : x.size = g.numNodes) (hz : z.size = g.numNodes)
    (hi : i < g.numNodes) : g.ReadsInRange x z i where
  row := by
    have hbounds := hg.localBounds_eq hi hx.ge
    have hcolumns := hg.columns_rowAt i
    refine ⟨g.rowAt i, g.edgeList i, _, hg.row_eq hi, ?_, ?_, hg.edges_rowAt i, hg.edges_eq hi, ?_,
      (hg.localBounds_rowAt hi x).trans hbounds, hbounds⟩
    · intro j hj
      rw [hcolumns] at hj
      exact lt_of_mem_neighbors hj
    · rw [hcolumns, hg.neighborhood_eq hi]
    · rw [hcolumns]
      exact aligned_edgeList g i
  lowOrder := ⟨_, hg.lowOrderRate_eq hi hx.ge⟩
  highOrder := ⟨_, hg.highOrderRate_eq hi hx.ge hz.ge⟩
  limited := ⟨_, hg.mclRate_eq hi hx.ge hz.ge⟩

theorem storesFluxes (hg : g.Accepted) (hx : x.size = g.numNodes) (hz : z.size = g.numNodes) :
    ∃ fluxes, g.limitedFluxes x z = .ok fluxes ∧
      StoresFluxes g.mass g.advection g x z fluxes := by
  obtain ⟨fluxes, hfluxes, hsize, hflux⟩ := hg.exists_limitedFluxes hx hz
  refine ⟨fluxes, hfluxes, hsize, fun i p hp ↦ ?_, fun i j p hij hp ↦ ?_⟩
  · rw [hflux i i p (SparsityPattern.stores_iff_find?.1 hp), fluxAt_self]
  · have hfind := SparsityPattern.stores_iff_find?.1 hp
    obtain ⟨hi, hj, -⟩ := hg.lt_numNodes_of_find? hfind
    have hneighbor : j ∈ g.neighbors i := mem_neighbors_iff.2 ⟨hj, p, hp⟩
    obtain ⟨-, -, hmass, hforward, hbackward⟩ :=
      hg.edge?_eq_some_iff_holds.1 (edge?_eq_edgeTo hneighbor hij.symm)
    refine ⟨_, _, _, _, _, hmass, hforward, hbackward, hg.localBounds_eq hi hx.ge,
      hg.localBounds_eq hj hx.ge, ?_⟩
    rw [hflux i j p hfind, fluxAt_of_mem_neighbors hneighbor hij.symm]
    rfl

end Accepted

/-- On a graph that has been constructed, with whatever scalars and lumped mass, no kernel reads out
of range, and the limited fluxes never lack an edge. -/
theorem readsInRange_of_withLumpedMass {mass advection : CsrMatrix α} {lumped : Array α}
    (hg : withLumpedMass mass advection lumped = .ok g) (hx : x.size = g.numNodes)
    (hz : z.size = g.numNodes) : (∀ i < g.numNodes, g.ReadsInRange x z i) ∧
      ∃ fluxes, g.limitedFluxes x z = .ok fluxes ∧ StoresFluxes mass advection g x z fluxes := by
  obtain ⟨rfl, rfl, -, hg⟩ := withLumpedMass_eq_ok_iff.1 hg
  exact ⟨fun i hi ↦ hg.readsInRange hx hz hi, hg.storesFluxes hx hz⟩

def loopedPairPattern : SparsityPattern := .ofLanes 2 [[0, 1], [0]] (by decide) (by decide)

def loopedPairMass : CsrMatrix ℚ := ⟨loopedPairPattern, #[4, 1, 1], rfl⟩

def loopedPairAdvection : CsrMatrix ℚ := ⟨loopedPairPattern, #[5, 2, -1], rfl⟩

def loopedPair : GraphOperator ℚ := ⟨loopedPairMass, loopedPairAdvection, #[1, 1], #[0, 2, 1]⟩

theorem withLumpedMass_loopedPair :
    withLumpedMass loopedPairMass loopedPairAdvection #[1, 1] = .ok loopedPair :=
  withLumpedMass_eq_ok_iff.2 ⟨rfl, rfl, rfl, by decide, by decide, rfl, by decide +kernel,
    by decide +kernel, rfl, by decide +kernel⟩

theorem readsInRange_of_withLumpedMass_pair :
    loopedPair.ReadsInRange #[0, 3] #[5, -2] 0 ∧ loopedPair.ReadsInRange #[0, 3] #[5, -2] 1 ∧
    ∃ fluxes, loopedPair.limitedFluxes #[0, 3] #[5, -2] = .ok fluxes ∧
      StoresFluxes loopedPairMass loopedPairAdvection loopedPair #[0, 3] #[5, -2] fluxes ∧
      fluxes.size = 3 ∧ fluxes[0]? = some 0 := by
  obtain ⟨hreads, fluxes, hfluxes, hstored⟩ := readsInRange_of_withLumpedMass
    withLumpedMass_loopedPair (x := #[0, 3]) (z := #[5, -2]) rfl rfl
  refine ⟨hreads 0 (by decide), hreads 1 (by decide), fluxes, hfluxes, hstored,
    hstored.size_eq, ?_⟩
  exact hstored.diagonal 0 0 ⟨0, 2, rfl, rfl, by decide, by decide, rfl⟩

end GraphOperator

end GraphTransport
