import GraphTransport.Proofs.Scheme.Pointwise

namespace GraphTransport

variable {α : Type} [Scalar α]

namespace GraphOperator

variable {g : GraphOperator α} {i j p : Nat}

def fluxAt (g : GraphOperator α) (u z : Nat → α) (i j : Nat) : α :=
  (g.edge? i j).elim 0 fun e ↦ e.limitedFlux (g.endAt u z i) (g.endAt u z j)

theorem fluxAt_congr {u u' z z' : Nat → α} (hu : ∀ k < g.numNodes, u k = u' k)
    (hz : ∀ k < g.numNodes, z k = z' k) (hi : i < g.numNodes) (hj : j < g.numNodes) :
    g.fluxAt u z i j = g.fluxAt u' z' i j := by
  rw [fluxAt, fluxAt, endAt_congr hu hz hi, endAt_congr hu hz hj]

/-- Where the edges follow the columns off the diagonal, running along both meets every such column
with the edge to it. -/
theorem alignFluxes_map (i : Nat) (flux : Nat → Edge α → Except Violation α)
    (edgeTo : Nat → Edge α) (columns : List Nat) :
    alignFluxes i flux columns ((columns.filter (· != i)).map edgeTo) =
      columns.mapM fun j ↦ if j = i then .ok 0 else flux j (edgeTo j) := by
  induction columns with
  | nil => rfl
  | cons j columns ih =>
    rw [List.mapM_cons, ← ih]
    by_cases hij : j = i
    · rw [List.filter_cons_of_neg (by simp [hij]), alignFluxes.eq_def]
      simp only [hij, if_true, ok_bind]
    · rw [List.filter_cons_of_pos (by simp [hij]), List.map_cons, alignFluxes]
      simp only [hij, if_false]

theorem fluxAt_self (u z : Nat → α) : g.fluxAt u z i i = 0 := by
  rw [fluxAt, edge?, if_pos rfl, Option.elim_none]

theorem fluxAt_of_mem_neighbors {u z : Nat → α} (hj : j ∈ g.neighbors i) (hne : j ≠ i) :
    g.fluxAt u z i j = (g.edgeTo i j).limitedFlux (g.endAt u z i) (g.endAt u z j) := by
  rw [fluxAt, edge?_eq_edgeTo hj hne, Option.elim_some]

namespace Accepted

theorem limitedFluxes_eq (hg : g.Accepted) {x z : Array α} (hx : x.size = g.numNodes)
    (hz : z.size = g.numNodes) : g.limitedFluxes x z =
      .ok (g.pattern.entries.map fun e ↦
        g.fluxAt (valueAt x) (valueAt z) e.row e.column).toArray := by
  have hrow : ∀ i ∈ List.range g.numNodes, (do
      let here ← g.endpoint x z i
      alignFluxes i (fun j e ↦ return e.limitedFlux here (← g.endpoint x z j))
        (← g.neighborhood i) (← g.edges i)) =
      Except.ok (ε := Violation) ((g.neighbors i).map (g.fluxAt (valueAt x) (valueAt z) i)) := by
    intro i hi
    have hi := List.mem_range.1 hi
    rw [hg.endpoint_eq hi hx.ge hz.ge, ok_bind, hg.neighborhood_eq hi, ok_bind, hg.edges_eq hi,
      ok_bind, g.edgeList_eq_map, alignFluxes_map]
    refine mapM_eq_ok_map fun j hj ↦ ?_
    by_cases hij : j = i
    · rw [if_pos hij, hij, fluxAt_self]
    · rw [if_neg hij, hg.endpoint_eq (lt_of_mem_neighbors hj) hx.ge hz.ge, ok_bind,
        fluxAt_of_mem_neighbors hj hij]
      rfl
  have hflatten : ((List.range g.numNodes).map fun i ↦
      (g.neighbors i).map (g.fluxAt (valueAt x) (valueAt z) i)).flatten =
      g.pattern.entries.map fun e ↦ g.fluxAt (valueAt x) (valueAt z) e.row e.column := by
    rw [SparsityPattern.entries_eq_flatMap, List.map_flatMap, ← List.flatMap_def, hg.numRows_eq]
    refine List.flatMap_congr fun i _ ↦ ?_
    rw [← hg.map_column_storage, List.map_map, List.map_map]
    rfl
  simp only [limitedFluxes, hx, hz, ne_eq, not_true_eq_false, if_false]
  rw [mapM_eq_ok_map hrow, ← hflatten]
  rfl

theorem exists_limitedFluxes (hg : g.Accepted) {x z : Array α} (hx : x.size = g.numNodes)
    (hz : z.size = g.numNodes) : ∃ fluxes, g.limitedFluxes x z = .ok fluxes ∧
      fluxes.size = g.nnz ∧ ∀ i j p, g.pattern.find? i j = some p →
        fluxes[p]? = some (g.fluxAt (valueAt x) (valueAt z) i j) := by
  refine ⟨_, hg.limitedFluxes_eq hx hz, ?_, fun i j p hp ↦ ?_⟩
  · have hlength := congrArg List.length g.pattern.map_offset_entries
    rw [List.length_map, List.length_range] at hlength
    rw [List.size_toArray, List.length_map, hlength]
    rfl
  · rw [List.getElem?_toArray, List.getElem?_map, SparsityPattern.entries_getElem? hp]
    rfl

end Accepted

end GraphOperator

end GraphTransport
