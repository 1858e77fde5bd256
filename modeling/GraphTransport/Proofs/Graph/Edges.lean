import GraphTransport.Proofs.Graph.Accepted
import GraphTransport.Graph.Edge

namespace GraphTransport

variable {α : Type}

def Edge.mirror (i : Nat) (e : Edge α) : Edge α := ⟨i, e.mass, e.backward, e.forward⟩

/-- Both ends of an edge see the same viscosity. This is a law of maximum and absolute value. -/
class SymmetricViscosity (α : Type) [Scalar α] : Prop where
  graphViscosity_comm : ∀ k k' : α, graphViscosity k k' = graphViscosity k' k

theorem Edge.mirror_viscosity [Scalar α] [SymmetricViscosity α] (e : Edge α) (i : Nat) :
    (e.mirror i).viscosity = e.viscosity :=
  SymmetricViscosity.graphViscosity_comm e.backward e.forward

namespace GraphOperator

variable [Scalar α] (g : GraphOperator α)

/-- The edge to `j` with the coefficients at storage offset `p`. -/
def storedEdge (j p : Nat) : Edge α :=
  ⟨j, g.mass.values.getD p 0, g.advection.values.getD p 0,
    g.advection.values.getD (g.transposeOffsets.getD p 0) 0⟩

def edge? (i j : Nat) : Option (Edge α) :=
  if i = j then none else (g.pattern.find? i j).map (g.storedEdge j)

def edgeTo (i j : Nat) : Edge α := g.storedEdge j ((g.pattern.find? i j).getD 0)

def neighbors (i : Nat) : List Nat :=
  (List.range g.numNodes).filter fun j ↦ (g.pattern.find? i j).isSome

def edgeList (i : Nat) : List (Edge α) := (List.range g.numNodes).filterMap (g.edge? i)

def boundsAt (u : Nat → α) (i : Nat) : Bounds α :=
  (g.neighbors i).foldl (fun bounds j ↦ ⟨min bounds.lower (u j), max bounds.upper (u j)⟩)
    ⟨u i, u i⟩

def lumpedAt (i : Nat) : α := g.lumpedMass.getD i 0

theorem fetch_lumpedMass {i : Nat} (hi : i < g.numNodes) :
    fetch g.lumpedMass i = .ok (g.lumpedAt i) := fetch_eq_ok_getD hi

variable {g} {i j p : Nat} {e : Edge α}

theorem edge?_eq_some_iff :
    g.edge? i j = some e ↔ i ≠ j ∧ ∃ p, g.pattern.find? i j = some p ∧ g.storedEdge j p = e := by
  unfold edge?
  split
  · next h => simp [h]
  · next h => simp [h]

theorem neighbor_of_edge? (h : g.edge? i j = some e) : e.neighbor = j := by
  obtain ⟨-, p, -, rfl⟩ := edge?_eq_some_iff.1 h
  rfl

theorem mem_edgeList :
    e ∈ g.edgeList i ↔ e.neighbor < g.numNodes ∧ g.edge? i e.neighbor = some e := by
  rw [edgeList, List.mem_filterMap]
  constructor
  · rintro ⟨j, hj, h⟩
    obtain rfl := neighbor_of_edge? h
    exact ⟨List.mem_range.1 hj, h⟩
  · rintro ⟨hj, h⟩
    exact ⟨e.neighbor, List.mem_range.2 hj, h⟩

theorem edgeList_eq_filterMap (g : GraphOperator α) (i : Nat) :
    g.edgeList i = (g.neighbors i).filterMap (g.edge? i) := by
  rw [neighbors, filterMap_filter_isSome, edgeList]
  intro j hj
  cases hfind : g.pattern.find? i j with
  | none => simp [edge?, hfind]
  | some p => simp [hfind] at hj

theorem neighbor_lt (he : e ∈ g.edgeList i) : e.neighbor < g.numNodes := (mem_edgeList.1 he).1

theorem stored_of_edge? (h : g.edge? i j = some e) : g.pattern.Stored i j := by
  obtain ⟨-, p, hp, -⟩ := edge?_eq_some_iff.1 h
  exact ⟨p, SparsityPattern.stores_iff_find?.2 hp⟩

omit [Scalar α] in
theorem mem_neighbors_iff : j ∈ g.neighbors i ↔ j < g.numNodes ∧ g.pattern.Stored i j := by
  rw [neighbors, List.mem_filter, List.mem_range, SparsityPattern.stored_iff_isSome]

theorem edgeTo_column (hp : p ∈ g.pattern.storage i) :
    g.edgeTo i (g.pattern.column p) = g.storedEdge (g.pattern.column p) p := by
  rw [edgeTo, SparsityPattern.find?_column hp, Option.getD_some]

theorem edge?_eq_edgeTo (hj : j ∈ g.neighbors i) (hne : j ≠ i) :
    g.edge? i j = some (g.edgeTo i j) := by
  obtain ⟨-, p, hp⟩ := mem_neighbors_iff.1 hj
  have hfind := SparsityPattern.stores_iff_find?.1 hp
  simp [edge?, edgeTo, hne.symm, hfind]

theorem edgeList_eq_map (g : GraphOperator α) (i : Nat) :
    g.edgeList i = ((g.neighbors i).filter (· != i)).map (g.edgeTo i) := by
  rw [g.edgeList_eq_filterMap, ← List.filterMap_eq_map, List.filterMap_filter]
  refine List.filterMap_congr fun j hj ↦ ?_
  by_cases hij : j = i
  · simp [edge?, hij]
  · simp [edge?_eq_edgeTo hj hij, hij]

omit [Scalar α] in
theorem lt_of_mem_neighbors (hj : j ∈ g.neighbors i) : j < g.numNodes :=
  (mem_neighbors_iff.1 hj).1

namespace Accepted

theorem lt_of_edge? (hg : g.Accepted) (h : g.edge? i j = some e) :
    i < g.numNodes ∧ j < g.numNodes := by
  obtain ⟨-, p, hp, -⟩ := edge?_eq_some_iff.1 h
  exact ⟨(hg.lt_numNodes_of_find? hp).1, (hg.lt_numNodes_of_find? hp).2.1⟩

theorem edge?_mirror [LawfulBEq α] (hg : g.Accepted) (h : g.edge? i j = some e) :
    g.edge? j i = some (e.mirror i) := by
  obtain ⟨hij, p, hp, rfl⟩ := edge?_eq_some_iff.1 h
  obtain ⟨q, hpq, hq⟩ := hg.transpose hp
  have hqp := hg.transpose_of_find? hq hp
  refine edge?_eq_some_iff.2 ⟨hij.symm, q, hq, ?_⟩
  have hmass := eq_of_beq (hg.mass_beq hp hq)
  simp [storedEdge, Edge.mirror, hmass, Array.getD_eq_getD_getElem?, hpq, hqp]

theorem edge?_comm [LawfulBEq α] (hg : g.Accepted) (i j : Nat) :
    g.edge? j i = (g.edge? i j).map (Edge.mirror i) := by
  cases h : g.edge? i j with
  | some e => exact hg.edge?_mirror h
  | none =>
    cases h' : g.edge? j i with
    | none => rfl
    | some e => simp [hg.edge?_mirror h'] at h

theorem rowStorage_eq (hg : g.Accepted) (hi : i < g.numNodes) :
    g.rowStorage i = .ok (g.pattern.storage i) := by
  have hrow : i + 1 ≤ g.pattern.numRows := hi.trans_eq hg.numRows_eq.symm
  have hstart : fetch g.pattern.rowOffsets i = .ok (g.pattern.offset i) :=
    fetch_eq_ok_iff.2 (g.pattern.rowOffsets_getElem? (Nat.le_of_succ_le hrow))
  have hstop : fetch g.pattern.rowOffsets (i + 1) = .ok (g.pattern.offset (i + 1)) :=
    fetch_eq_ok_iff.2 (g.pattern.rowOffsets_getElem? hrow)
  rw [rowStorage, hstart, ok_bind, hstop, ok_bind]
  rfl

theorem map_column_storage (hg : g.Accepted) (i : Nat) :
    (g.pattern.storage i).map g.pattern.column = g.neighbors i := by
  rw [SparsityPattern.map_column_storage, hg.numCols_eq]
  rfl

theorem neighborhood_eq (hg : g.Accepted) (hi : i < g.numNodes) :
    g.neighborhood i = .ok (g.neighbors i) := by
  rw [neighborhood, hg.rowStorage_eq hi, ok_bind,
    mapM_eq_ok_map fun p hp ↦ SparsityPattern.fetch_columns hp, hg.map_column_storage]

theorem fetch_transposed (hg : g.Accepted) (hp : p ∈ g.pattern.storage i) :
    fetch g.advection.values (g.transposeOffsets.getD p 0) =
      .ok (g.advection.values.getD (g.transposeOffsets.getD p 0) 0) := by
  obtain ⟨q, hpq, hq⟩ := hg.transpose (SparsityPattern.find?_column hp)
  have hoffset : g.transposeOffsets.getD p 0 = q := by
    rw [Array.getD_eq_getD_getElem?, hpq, Option.getD_some]
  rw [hoffset]
  exact fetch_eq_ok_getD ((hg.lt_numNodes_of_find? hq).2.2.trans_eq hg.size_advection.symm)

theorem edgeAt_eq (hg : g.Accepted) (hp : p ∈ g.pattern.storage i) :
    g.edgeAt j p = .ok (g.storedEdge j p) := by
  have hlt : p < g.nnz := SparsityPattern.lt_nnz_of_mem_storage hp
  rw [edgeAt, fetch_eq_ok_getD (hlt.trans_eq (size_mass g).symm), ok_bind,
    fetch_eq_ok_getD (hlt.trans_eq hg.size_advection.symm), ok_bind,
    fetch_eq_ok_getD (hlt.trans_eq hg.size_transposeOffsets.symm), ok_bind,
    hg.fetch_transposed hp, ok_bind]
  rfl

theorem map_storedEdge_storage (hg : g.Accepted) (i : Nat) :
    ((g.pattern.storage i).filter fun p ↦ g.pattern.column p != i).map
      (fun p ↦ g.storedEdge (g.pattern.column p) p) = g.edgeList i := by
  rw [g.edgeList_eq_map, ← hg.map_column_storage, List.filter_map, List.map_map]
  refine List.map_congr_left fun p hp ↦ ?_
  exact (edgeTo_column (List.mem_filter.1 hp).1).symm

theorem edges_eq (hg : g.Accepted) (hi : i < g.numNodes) : g.edges i = .ok (g.edgeList i) := by
  have hstored : (g.pattern.storage i).mapM
      (fun p ↦ do return (← fetch g.pattern.columns p, p) : Nat → Except Violation (Nat × Nat)) =
      .ok ((g.pattern.storage i).map fun p ↦ (g.pattern.column p, p)) := by
    refine mapM_eq_ok_map fun p hp ↦ ?_
    rw [SparsityPattern.fetch_columns hp, ok_bind]
    rfl
  rw [edges, hg.rowStorage_eq hi, ok_bind, hstored, ok_bind, List.filter_map,
    mapM_eq_ok_map (g := fun e ↦ g.storedEdge e.1 e.2), List.map_map, ← hg.map_storedEdge_storage]
  · rfl
  · intro e he
    obtain ⟨p, hp, rfl⟩ := List.mem_map.1 he
    exact hg.edgeAt_eq (List.mem_filter.1 hp).1

theorem localBounds_eq (hg : g.Accepted) (hi : i < g.numNodes) {x : Array α}
    (hx : g.numNodes ≤ x.size) :
    g.localBounds i x = .ok (g.boundsAt (fun j ↦ x.getD j 0) i) := by
  rw [localBounds, fetch_eq_ok_getD (hi.trans_le hx), ok_bind, hg.neighborhood_eq hi, ok_bind]
  refine foldlM_eq_ok_foldl (fun bounds j hj ↦ ?_) _
  have hj' : j < g.numNodes := lt_of_mem_neighbors hj
  rw [fetch_eq_ok_getD (hj'.trans_le hx), ok_bind]
  rfl

end Accepted

end GraphOperator

end GraphTransport
