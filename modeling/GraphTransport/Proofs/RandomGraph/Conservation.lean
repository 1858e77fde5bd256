import Mathlib
import GraphTransport.Proofs.Graph.Reach
import GraphTransport.Proofs.Periodic.Stencil
import GraphTransport.Proofs.RandomGraph.Operator
import GraphTransport.Proofs.Scalar.Binary64Sums

namespace GraphTransport.RandomGraph

variable {n : Nat} {extra edges : List (Nat × Nat)}

section Ring

theorem next_mem_undirectedEdges {i : Nat} (hn : 2 ≤ n) (hi : i < n) :
    (i, nextNode n i) ∈ undirectedEdges n extra ∨ (nextNode n i, i) ∈ undirectedEdges n extra := by
  have hring : (i, nextNode n i) ∈ ring n ++ extra :=
    List.mem_append_left _ (mem_ring_iff.2 ⟨hi, rfl⟩)
  rw [mem_undirectedEdges_iff, mem_undirectedEdges_iff]
  rcases lt_or_gt_of_ne (nextNode_ne_self hn hi) with h | h
  · exact .inr ⟨h, .inr hring⟩
  · exact .inl ⟨h, .inl hring⟩

theorem IsDrawn.connected {α : Type} [Scalar α] {values : List (EdgeValues α)}
    {diagonal : List (α × α)} {g : GraphOperator α}
    (h : IsDrawn n (undirectedEdges n extra) values diagonal g) (hn : 2 ≤ n) : g.Connected := by
  have hedge : ∀ i, i + 1 < n →
      (i, i + 1) ∈ undirectedEdges n extra ∨ (i + 1, i) ∈ undirectedEdges n extra := by
    intro i hi
    have hnext : nextNode n i = i + 1 := Nat.mod_eq_of_lt hi
    exact hnext ▸ next_mem_undirectedEdges hn (Nat.lt_of_succ_lt hi)
  apply GraphOperator.connected_of_next
  · intro i hi
    refine GraphOperator.mem_neighbors_iff.2 ⟨hi, (h.stored_iff i (i + 1)).2 (.inr ?_)⟩
    exact hedge i (h.numNodes_eq ▸ hi)
  · intro i hi
    refine GraphOperator.mem_neighbors_iff.2 ⟨Nat.lt_of_succ_lt hi,
      (h.stored_iff (i + 1) i).2 (.inr ?_)⟩
    exact (hedge i (h.numNodes_eq ▸ hi)).symm

end Ring

theorem zip_map_zip {β γ δ : Type} (f : β × γ → δ) (l : List β) (l' : List γ) :
    l.zip ((l.zip l').map f) = (l.zip l').map fun p ↦ (p.1, f p) := by
  induction l generalizing l' with
  | nil => rfl
  | cons b l ih =>
    cases l' with
    | nil => rfl
    | cons c l' => exact congrArg _ (ih l')

section Draws

variable {α : Type} [Scalar α] {circulation : α} {draws : List (α × α)}

def circulating (n : Nat) (circulation : α) (edges : List (Nat × Nat)) (draws : List (α × α)) :
    List (EdgeValues α) :=
  (edges.zip draws).map fun (e, mass, symmetric) ↦
    conservativeValues n circulation e mass symmetric

theorem map_mass_circulating (h : draws.length = edges.length) :
    (circulating n circulation edges draws).map (·.mass) = draws.map (·.1) := by
  have hzip : (edges.zip draws).map Prod.snd = draws := List.map_snd_zip h.le
  conv_rhs => rw [← hzip]
  rw [circulating, List.map_map, List.map_map]
  rfl

theorem exists_mem_zip_circulating {e : Nat × Nat} (h : draws.length = edges.length)
    (he : e ∈ edges) : ∃ mass symmetric,
      (e, conservativeValues n circulation e mass symmetric) ∈
        edges.zip (circulating n circulation edges draws) := by
  have hzip : (edges.zip draws).map Prod.fst = edges := List.map_fst_zip h.ge
  rw [← hzip] at he
  obtain ⟨⟨e, mass, symmetric⟩, hmem, rfl⟩ := List.mem_map.1 he
  refine ⟨mass, symmetric, ?_⟩
  rw [circulating, zip_map_zip]
  exact List.mem_map_of_mem hmem

end Draws

section Circulation

variable {F : Type} [Field F] [LinearOrder F] {c : F} {i j : Nat}

/-- What runs from node `i` to node `j` around the ring, less what runs back. -/
def circulationAt (n : Nat) (c : F) (i j : Nat) : F :=
  (if j = nextNode n i then c else 0) - if i = nextNode n j then c else 0

theorem circulationAt_comm (n : Nat) (c : F) (i j : Nat) :
    circulationAt n c j i = -circulationAt n c i j := (neg_sub _ _).symm

theorem sum_circulationAt (hi : i < n) : ∑ j ∈ Finset.range n, circulationAt n c i j = 0 := by
  -- What leaves to the node after has come from the node before.
  have hin : ∑ j ∈ Finset.range n, (if i = nextNode n j then c else 0) = c := by
    have hprevious : ∀ j ∈ Finset.range n, (if i = nextNode n j then c else 0) =
        if j = previousNode n i then c else 0 := by
      intro j hj
      have hiff := nextNode_eq_iff (Finset.mem_range.1 hj) hi
      simp only [eq_comm (a := i), hiff]
    rw [Finset.sum_congr rfl hprevious, Finset.sum_ite_eq',
      if_pos (Finset.mem_range.2 (previousNode_lt hi))]
  have hout : ∑ j ∈ Finset.range n, (if j = nextNode n i then c else 0) = c := by
    rw [Finset.sum_ite_eq', if_pos (Finset.mem_range.2 (nextNode_lt hi))]
  simp only [circulationAt]
  rw [Finset.sum_sub_distrib, hout, hin, sub_self]

theorem circulationAt_eq_zero (hout : j ≠ nextNode n i) (hin : i ≠ nextNode n j) :
    circulationAt n c i j = 0 := by
  rw [circulationAt, if_neg hout, if_neg hin, sub_self]

theorem circulationAt_of_lt (hn : 3 ≤ n) (hij : i < j) (hj : j < n) : circulationAt n c i j =
    if isRingEdge n (i, j) then if j = i + 1 then c else -c else 0 := by
  have hring : isRingEdge n (i, j) = true ↔ j = i + 1 ∨ (i = 0 ∧ j = n - 1) := by
    simp [isRingEdge]
  have hout : j = nextNode n i ↔ j = i + 1 := by
    rw [nextNode_eq_ite (hij.trans hj), if_neg (by omega)]
  have hin : i = nextNode n j ↔ i = 0 ∧ j = n - 1 := by
    rw [nextNode_eq_ite hj]
    split <;> omega
  simp only [circulationAt, hout, hin, hring]
  by_cases hnext : j = i + 1
  · have hopen : ¬ (i = 0 ∧ j = n - 1) := by omega
    rw [if_pos hnext, if_neg hopen, if_pos (.inl hnext), if_pos hnext, sub_zero]
  · by_cases hclosing : i = 0 ∧ j = n - 1
    · rw [if_neg hnext, if_pos hclosing, if_pos (.inr hclosing), if_neg hnext, zero_sub]
    · rw [if_neg hnext, if_neg hclosing, if_neg (not_or.2 ⟨hnext, hclosing⟩), sub_zero]

theorem conservativeValues_sub (hn : 3 ≤ n) (hij : i < j) (hj : j < n) (mass symmetric : F) :
    let v := conservativeValues n c (i, j) mass symmetric
    v.forward - v.backward = 2 * circulationAt n c i j := by
  rw [circulationAt_of_lt hn hij hj]
  change symmetric + _ - (symmetric - _) = _
  ring

variable {draws : List (F × F)} {diagonal : List (F × F)} {g : GraphOperator F}

namespace IsDrawn

variable (h : IsDrawn n (undirectedEdges n extra)
  (circulating n c (undirectedEdges n extra) draws) diagonal g) (hn : 3 ≤ n)
  (hextra : ∀ e ∈ extra, e.1 < n ∧ e.2 < n)
  (hdraws : draws.length = (undirectedEdges n extra).length)

include h hn hextra hdraws

theorem entry_sub_entry_of_mem (hij : (i, j) ∈ undirectedEdges n extra) :
    g.advection.entry i j - g.advection.entry j i = 2 * circulationAt n c i j := by
  obtain ⟨hlt, hj⟩ := lt_of_mem_undirectedEdges hextra hij
  obtain ⟨mass, symmetric, hv⟩ := exists_mem_zip_circulating hdraws hij
  obtain ⟨-, -, hforward, hbackward⟩ := h.edge_holds i j _ hv
  rw [CsrMatrix.entry_eq_of_holds hforward, CsrMatrix.entry_eq_of_holds hbackward]
  exact conservativeValues_sub hn hlt hj mass symmetric

theorem entry_sub_entry (hi : i < n) (hj : j < n) (hne : i ≠ j) :
    g.advection.entry i j - g.advection.entry j i = 2 * circulationAt n c i j := by
  by_cases hij : (i, j) ∈ undirectedEdges n extra
  · exact h.entry_sub_entry_of_mem hn hextra hdraws hij
  by_cases hji : (j, i) ∈ undirectedEdges n extra
  · rw [← neg_sub, h.entry_sub_entry_of_mem hn hextra hdraws hji, circulationAt_comm n c i j]
    ring
  have hstored : ∀ a b, g.advection.pattern.Stored a b ↔
      (a < n ∧ a = b) ∨ (a, b) ∈ undirectedEdges n extra ∨ (b, a) ∈ undirectedEdges n extra :=
    fun a b ↦ h.accepted.pattern_eq ▸ h.stored_iff a b
  have hentry : g.advection.entry i j = 0 :=
    CsrMatrix.entry_eq_zero (by simp [hstored, hij, hji, hne])
  have hentry' : g.advection.entry j i = 0 :=
    CsrMatrix.entry_eq_zero (by simp [hstored, hij, hji, hne.symm])
  have hout : j ≠ nextNode n i := by
    rintro rfl
    exact (next_mem_undirectedEdges (by omega) hi).elim hij hji
  have hin : i ≠ nextNode n j := by
    rintro rfl
    exact (next_mem_undirectedEdges (by omega) hj).elim hji hij
  rw [hentry, hentry', circulationAt_eq_zero hout hin, sub_self, mul_zero]

theorem offDiagonalRowSum_eq (hi : i < n) :
    g.advection.offDiagonalRowSum i = g.advection.offDiagonalColumnSum i := by
  have hrows : g.advection.numRows = n := by
    rw [← h.numNodes_eq, ← h.accepted.numRows_eq]
    exact congrArg SparsityPattern.numRows h.accepted.pattern_eq.symm
  have hcols : g.advection.numCols = n := h.accepted.advection_square.symm.trans hrows
  have hself : circulationAt n c i i = 0 :=
    circulationAt_eq_zero (nextNode_ne_self (by omega) hi).symm
      (nextNode_ne_self (by omega) hi).symm
  rw [CsrMatrix.offDiagonalRowSum, CsrMatrix.offDiagonalColumnSum, hrows, hcols, ← sub_eq_zero]
  calc ∑ j ∈ (Finset.range n).erase i, g.advection.entry i j -
        ∑ j ∈ (Finset.range n).erase i, g.advection.entry j i
      = ∑ j ∈ (Finset.range n).erase i, 2 * circulationAt n c i j := by
        rw [← Finset.sum_sub_distrib]
        refine Finset.sum_congr rfl fun j hj ↦ ?_
        obtain ⟨hne, hj⟩ := Finset.mem_erase.1 hj
        exact h.entry_sub_entry hn hextra hdraws hi (Finset.mem_range.1 hj) hne.symm
    _ = 2 * ∑ j ∈ Finset.range n, circulationAt n c i j := by
        rw [← Finset.mul_sum, Finset.sum_erase _ hself]
    _ = 0 := by rw [sum_circulationAt hi, mul_zero]

end IsDrawn

end Circulation

section Generators

variable {α : Type} [Scalar α] [NonnegativeSums α] {limits : DrawLimits} {diagonal : List (α × α)}
  (hlimits : 3 ≤ limits.maxNodes) (hextra : ∀ e ∈ extra, e.1 < n ∧ e.2 < n)

include hlimits hextra

theorem exists_general {values : List (EdgeValues α)}
    (hdraw : IsDraw n (undirectedEdges n extra) (values.map (·.mass)) diagonal) :
    ∃ g, general limits n extra values diagonal = .ok g ∧
      IsDrawn n (undirectedEdges n extra) values diagonal g := by
  have hcheck : limits.check = .ok () := if_pos hlimits
  rw [general, hcheck, ok_bind]
  exact exists_operator (ascending_undirectedEdges n extra).nodup
    (fun _ _ ↦ lt_of_mem_undirectedEdges hextra) hdraw

theorem exists_conservative {draws : List (α × α)} (circulation : α)
    (hdraw : IsDraw n (undirectedEdges n extra) (draws.map (·.1)) diagonal) :
    ∃ g, conservative limits n extra draws circulation diagonal = .ok g ∧
      IsDrawn n (undirectedEdges n extra)
        (circulating n circulation (undirectedEdges n extra) draws) diagonal g := by
  rw [← map_mass_circulating hdraw.length_eq] at hdraw
  exact exists_general hlimits hextra hdraw

end Generators

/-- Whatever pairs are drawn, the edges are those of the ring and the drawn pairs without loops, in
strictly ascending order. The operator is built from any numbers of the drawn kind, its rows store
the diagonal and the neighbours, and it is connected. In exact arithmetic the advection of a
conservative graph has the same sums over rows and over columns off the diagonal. -/
theorem general_and_conservative {α F : Type} [Scalar α] [NonnegativeSums α] [Field F]
    [LinearOrder F] [IsStrictOrderedRing F] {limits : DrawLimits}
    (hlimits : 3 ≤ limits.maxNodes) (hn : 3 ≤ n) (hextra : ∀ e ∈ extra, e.1 < n ∧ e.2 < n) :
    Ascending (undirectedEdges n extra) ∧
    (∀ a b, (a, b) ∈ undirectedEdges n extra ↔
      a < b ∧ ((a, b) ∈ ring n ++ extra ∨ (b, a) ∈ ring n ++ extra)) ∧
    (∀ (values : List (EdgeValues α)) (diagonal : List (α × α)),
      IsDraw n (undirectedEdges n extra) (values.map (·.mass)) diagonal →
        ∃ g, general limits n extra values diagonal = .ok g ∧
          IsDrawn n (undirectedEdges n extra) values diagonal g ∧ g.Connected) ∧
    (∀ (draws diagonal : List (α × α)) (circulation : α),
      IsDraw n (undirectedEdges n extra) (draws.map (·.1)) diagonal →
        ∃ g, conservative limits n extra draws circulation diagonal = .ok g ∧
          IsDrawn n (undirectedEdges n extra)
            (circulating n circulation (undirectedEdges n extra) draws) diagonal g ∧
          g.Connected) ∧
    (∀ (draws diagonal : List (F × F)) (circulation : F),
      IsDraw n (undirectedEdges n extra) (draws.map (·.1)) diagonal →
        ∃ g, conservative limits n extra draws circulation diagonal = .ok g ∧
          ∀ i < n, g.advection.offDiagonalRowSum i = g.advection.offDiagonalColumnSum i) := by
  have htwo : 2 ≤ n := Nat.le_of_succ_le hn
  refine ⟨ascending_undirectedEdges n extra, fun a b ↦ mem_undirectedEdges_iff, ?_, ?_, ?_⟩
  · intro values diagonal hdraw
    obtain ⟨g, hg, h⟩ := exists_general hlimits hextra hdraw
    exact ⟨g, hg, h, h.connected htwo⟩
  · intro draws diagonal circulation hdraw
    obtain ⟨g, hg, h⟩ := exists_conservative hlimits hextra circulation hdraw
    exact ⟨g, hg, h, h.connected htwo⟩
  · intro draws diagonal circulation hdraw
    obtain ⟨g, hg, h⟩ := exists_conservative hlimits hextra circulation hdraw
    exact ⟨g, hg, fun i hi ↦ h.offDiagonalRowSum_eq hn hextra hdraw.length_eq hi⟩

theorem general_and_conservative_triangle :
    let extra := [(1, 1), (0, 1), (2, 0)]
    undirectedEdges 3 extra = [(0, 1), (0, 2), (1, 2)] ∧
    (∃ g : GraphOperator Float, general .default 3 extra
        [⟨0.5, 1.0, -2.0⟩, ⟨0.0, 0.1, 0.2⟩, ⟨0.25, 0.0, 0.0⟩]
        [(0.1, 1.0), (0.2, 0.0), (0.3, -1.0)] = .ok g ∧ g.Connected) ∧
    ∃ g : GraphOperator ℚ, conservative .default 3 extra [(0, 1), (1, -2), (3, 5)] 7
        [(1, 0), (2, 4), (1, -1)] = .ok g ∧
      ∀ i < 3, g.advection.offDiagonalRowSum i = g.advection.offDiagonalColumnSum i := by
  intro extra
  have hedges : undirectedEdges 3 extra = [(0, 1), (0, 2), (1, 2)] := by decide
  obtain ⟨-, -, hgeneral, -, hconservative⟩ :=
    @general_and_conservative 3 extra Float ℚ _ _ _ _ _ .default (by decide) le_rfl (by decide)
  rw [hedges] at hgeneral hconservative
  refine ⟨hedges, ?_, ?_⟩
  · obtain ⟨g, hg, -, hconnected⟩ := hgeneral [⟨0.5, 1.0, -2.0⟩, ⟨0.0, 0.1, 0.2⟩, ⟨0.25, 0.0, 0.0⟩]
      [(0.1, 1.0), (0.2, 0.0), (0.3, -1.0)] ⟨rfl, rfl, by decide +kernel, by decide +kernel⟩
    exact ⟨g, hg, hconnected⟩
  · exact hconservative _ _ 7 ⟨rfl, rfl, by decide, by decide⟩

end GraphTransport.RandomGraph
