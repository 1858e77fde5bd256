import GraphTransport.Proofs.Scheme.Clipping
import GraphTransport.Proofs.Scheme.Pointwise

namespace GraphTransport

variable {F : Type} [Field F] [LinearOrder F]

/-- What a scheme adds to the low-order flux of an edge. -/
def Scheme.correction (scheme : Scheme) (e : Edge F) (here there : Endpoint F) : F :=
  match scheme with
  | lowOrder => 0
  | highOrder => e.targetFlux here there
  | mcl => e.limitedFlux here there

theorem Scheme.rateAt_eq_sum (scheme : Scheme) (g : GraphOperator F) (u z : Nat → F) (i : Nat) :
    scheme.rateAt g u z i = (∑ j ∈ Finset.range g.numNodes, (g.edge? i j).elim 0 fun e ↦
      e.lowOrderFlux (u i) (u j) + scheme.correction e (g.endAt u z i) (g.endAt u z j)) /
        g.lumpedAt i := by
  let flux (e : Edge F) : F := e.lowOrderFlux (u i) (u e.neighbor) +
    scheme.correction e (g.endAt u z i) (g.endAt u z e.neighbor)
  have hsum : scheme.rateAt g u z i = ((g.edgeList i).map flux).sum / g.lumpedAt i := by
    cases scheme with
    | lowOrder =>
      rw [rateAt, GraphOperator.lowOrderAt, foldl_eq_add_sum (f := flux), zero_add]
      intro s e _
      simp only [flux, correction, add_zero]
    | highOrder =>
      rw [rateAt, GraphOperator.highOrderAt, foldl_eq_add_sum (f := flux), zero_add]
      intro s e _
      simp only [flux, correction, Edge.lowOrderFlux, Edge.targetFlux, GraphOperator.endAt]
      ring
    | mcl =>
      rw [rateAt, GraphOperator.mclAt, foldl_eq_add_sum (f := flux), zero_add]
      intro s e _
      exact add_assoc s _ _
  rw [hsum, g.sum_edgeList]
  congr 1
  refine Finset.sum_congr rfl fun j _ ↦ ?_
  cases h : g.edge? i j with
  | none => rfl
  | some e => simp only [flux, Option.elim_some, GraphOperator.neighbor_of_edge? h]

theorem GraphOperator.le_lower_boundsAt_iff {g : GraphOperator F} {u : Nat → F} {i : Nat} {c : F} :
    c ≤ (g.boundsAt u i).lower ↔ c ≤ u i ∧ ∀ j ∈ g.neighbors i, c ≤ u j := by
  rw [boundsAt]
  generalize g.neighbors i = l
  have hfold (bounds : Bounds F) : c ≤ (l.foldl (fun bounds j ↦
      ⟨min bounds.lower (u j), max bounds.upper (u j)⟩) bounds).lower ↔
      c ≤ bounds.lower ∧ ∀ j ∈ l, c ≤ u j := by
    induction l generalizing bounds with
    | nil => simp
    | cons j l ih => rw [List.foldl_cons, ih, List.forall_mem_cons, le_min_iff, and_assoc]
  exact hfold _

theorem GraphOperator.upper_boundsAt_le_iff {g : GraphOperator F} {u : Nat → F} {i : Nat} {c : F} :
    (g.boundsAt u i).upper ≤ c ↔ u i ≤ c ∧ ∀ j ∈ g.neighbors i, u j ≤ c := by
  rw [boundsAt]
  generalize g.neighbors i = l
  have hfold (bounds : Bounds F) : (l.foldl (fun bounds j ↦
      ⟨min bounds.lower (u j), max bounds.upper (u j)⟩) bounds).upper ≤ c ↔
      bounds.upper ≤ c ∧ ∀ j ∈ l, u j ≤ c := by
    induction l generalizing bounds with
    | nil => simp
    | cons j l ih => rw [List.foldl_cons, ih, List.forall_mem_cons, max_le_iff, and_assoc]
  exact hfold _

namespace GraphOperator

variable {g : GraphOperator F} {i j : Nat} {e : Edge F}

theorem contains_self (u : Nat → F) : (g.boundsAt u i).Contains (u i) :=
  ⟨(le_lower_boundsAt_iff.1 le_rfl).1, (upper_boundsAt_le_iff.1 le_rfl).1⟩

theorem Accepted.contains_neighbor (hg : g.Accepted) (h : g.edge? i j = some e) (u : Nat → F) :
    (g.boundsAt u i).Contains (u j) := by
  have hj : j ∈ g.neighbors i := mem_neighbors_iff.2 ⟨(hg.lt_of_edge? h).2, stored_of_edge? h⟩
  exact ⟨(le_lower_boundsAt_iff.1 le_rfl).2 j hj, (upper_boundsAt_le_iff.1 le_rfl).2 j hj⟩

theorem Accepted.encloses (hg : g.Accepted) (h : g.edge? i j = some e) (u z : Nat → F) :
    (g.endAt u z i).Encloses (g.endAt u z j) :=
  ⟨contains_self u, hg.contains_neighbor h u⟩

variable [IsStrictOrderedRing F]

theorem Accepted.correction_mirror (hg : g.Accepted) (scheme : Scheme)
    (h : g.edge? i j = some e) (u z : Nat → F) :
    scheme.correction (e.mirror i) (g.endAt u z j) (g.endAt u z i) =
      -scheme.correction e (g.endAt u z i) (g.endAt u z j) := by
  cases scheme with
  | lowOrder => exact neg_zero.symm
  | highOrder => exact e.targetFlux_mirror i _ _
  | mcl => exact e.limitedFlux_mirror (hg.encloses h u z) (hg.encloses (hg.edge?_mirror h) u z) i

end GraphOperator

end GraphTransport
