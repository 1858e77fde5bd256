import GraphTransport.Proofs.Graph.Lumping
import GraphTransport.Proofs.RandomGraph.Edges
import GraphTransport.Proofs.Sparse.Triplets

namespace GraphTransport.RandomGraph

variable {n : Nat} {edges : List (Nat × Nat)}

section Positions

def positions (n : Nat) (edges : List (Nat × Nat)) : List (Nat × Nat) :=
  (List.range n).map (fun i ↦ (i, i)) ++ edges.flatMap fun (a, b) ↦ [(a, b), (b, a)]

theorem mem_positions_iff {i j : Nat} : (i, j) ∈ positions n edges ↔
    (i < n ∧ i = j) ∨ (i, j) ∈ edges ∨ (j, i) ∈ edges := by
  simp only [positions, List.mem_append, List.mem_map, List.mem_range, List.mem_flatMap,
    Prod.exists, List.mem_cons, List.not_mem_nil, or_false, Prod.mk.injEq]
  constructor
  · intro h
    rcases h with ⟨k, hk, rfl, rfl⟩ | ⟨a, b, hab, ⟨rfl, rfl⟩ | ⟨rfl, rfl⟩⟩
    · exact .inl ⟨hk, rfl⟩
    · exact .inr (.inl hab)
    · exact .inr (.inr hab)
  · intro h
    rcases h with ⟨hi, rfl⟩ | hij | hji
    · exact .inl ⟨i, hi, rfl, rfl⟩
    · exact .inr ⟨i, j, hij, .inl ⟨rfl, rfl⟩⟩
    · exact .inr ⟨j, i, hji, .inr ⟨rfl, rfl⟩⟩

theorem nodup_positions (hedges : edges.Nodup) (hlt : ∀ a b, (a, b) ∈ edges → a < b) :
    (positions n edges).Nodup := by
  refine List.nodup_append.2 ⟨?_, List.nodup_flatMap.2 ⟨?_, hedges.imp_of_mem ?_⟩, ?_⟩
  · exact List.nodup_range.map fun i j h ↦ congrArg Prod.fst h
  · rintro ⟨a, b⟩ hab
    simp [(hlt a b hab).ne]
  -- The other direction of an edge is no edge, since that has its smaller node first.
  · rintro ⟨a, b⟩ ⟨c, d⟩ hab hcd hne
    have hab := hlt a b hab
    have hcd := hlt c d hcd
    simp only [Function.onFun, List.disjoint_cons_left, List.mem_cons, Prod.mk.injEq,
      List.not_mem_nil, or_false, List.disjoint_nil_left, and_true, ne_eq] at hne ⊢
    omega
  · intro x hx y hy
    obtain ⟨i, -, rfl⟩ := List.mem_map.1 hx
    obtain ⟨⟨a, b⟩, hab, hy⟩ := List.mem_flatMap.1 hy
    have hab := hlt a b hab
    rw [List.mem_cons, List.mem_singleton] at hy
    rintro rfl
    simp only [Prod.mk.injEq] at hy
    omega

end Positions

section Triplets

variable {α : Type} {values : List (EdgeValues α)} {diagonal : List (α × α)}
  {onDiagonal : α × α → α} {forward backward : EdgeValues α → α}

def triplets (edges : List (Nat × Nat)) (values : List (EdgeValues α)) (diagonal : List (α × α))
    (onDiagonal : α × α → α) (forward backward : EdgeValues α → α) : List (Triplet α) :=
  (diagonal.zipIdx.map fun (v, i) ↦ ⟨i, i, onDiagonal v⟩) ++
    (edges.zip values).flatMap fun ((a, b), v) ↦ [⟨a, b, forward v⟩, ⟨b, a, backward v⟩]

theorem mem_triplets_iff {t : Triplet α} :
    t ∈ triplets edges values diagonal onDiagonal forward backward ↔
      (∃ i d, diagonal[i]? = some d ∧ t = ⟨i, i, onDiagonal d⟩) ∨
      ∃ a b v, ((a, b), v) ∈ edges.zip values ∧
        (t = ⟨a, b, forward v⟩ ∨ t = ⟨b, a, backward v⟩) := by
  simp only [triplets, List.mem_append, List.mem_map, List.mem_flatMap, Prod.exists,
    List.mk_mem_zipIdx_iff_getElem?, List.mem_cons, List.not_mem_nil, or_false]
  refine or_congr_left ?_
  constructor
  · intro ⟨m, k, i, hd, ht⟩
    exact ⟨i, m, k, hd, ht.symm⟩
  · intro ⟨i, m, k, hd, ht⟩
    exact ⟨m, k, i, hd, ht.symm⟩

theorem map_position_triplets (hvalues : values.length = edges.length)
    (hdiagonal : diagonal.length = n) :
    (triplets edges values diagonal onDiagonal forward backward).map Triplet.position =
      positions n edges := by
  have hzip : (edges.zip values).map Prod.fst = edges := List.map_fst_zip hvalues.ge
  rw [triplets, positions, List.map_append]
  congr 1
  · rw [← hdiagonal, List.range_eq_range', ← List.zipIdx_map_snd 0 diagonal, List.map_map,
      List.map_map]
    rfl
  · conv_rhs => rw [← hzip, List.flatMap_map]
    rw [List.map_flatMap]
    rfl

theorem mem_triplets_comm {i j : Nat} {w : α}
    (h : ⟨i, j, w⟩ ∈ triplets edges values diagonal onDiagonal forward forward) :
    ⟨j, i, w⟩ ∈ triplets edges values diagonal onDiagonal forward forward := by
  rcases mem_triplets_iff.1 h with ⟨k, d, hd, heq⟩ | ⟨a, b, v, hv, heq | heq⟩
  · cases heq
    exact mem_triplets_iff.2 (.inl ⟨i, d, hd, rfl⟩)
  · cases heq
    exact mem_triplets_iff.2 (.inr ⟨i, j, v, hv, .inr rfl⟩)
  · cases heq
    exact mem_triplets_iff.2 (.inr ⟨j, i, v, hv, .inl rfl⟩)

end Triplets

section Matrices

variable {α : Type} {values : List (EdgeValues α)} {diagonal : List (α × α)}
  {onDiagonal : α × α → α} {forward backward : EdgeValues α → α} {M : CsrMatrix α}

structure Fills (n : Nat) (edges : List (Nat × Nat)) (values : List (EdgeValues α))
    (diagonal : List (α × α)) (onDiagonal : α × α → α) (forward backward : EdgeValues α → α)
    (M : CsrMatrix α) : Prop where
  numRows_eq : M.numRows = n
  numCols_eq : M.numCols = n
  holds_iff : ∀ i j v, M.Holds i j v ↔
    ⟨i, j, v⟩ ∈ triplets edges values diagonal onDiagonal forward backward

theorem exists_fills [Add α] (hedges : edges.Nodup)
    (hrange : ∀ a b, (a, b) ∈ edges → a < b ∧ b < n) (hvalues : values.length = edges.length)
    (hdiagonal : diagonal.length = n) (onDiagonal : α × α → α)
    (forward backward : EdgeValues α → α) :
    ∃ M, CsrMatrix.ofTriplets n n
        (triplets edges values diagonal onDiagonal forward backward) = .ok M ∧
      Fills n edges values diagonal onDiagonal forward backward M := by
  have hposition : (triplets edges values diagonal onDiagonal forward backward).map
      Triplet.position = positions n edges := map_position_triplets hvalues hdiagonal
  have hlt : ∀ t ∈ triplets edges values diagonal onDiagonal forward backward,
      t.row < n ∧ t.column < n := by
    intro t ht
    have ht : t.position ∈ positions n edges := hposition ▸ List.mem_map_of_mem ht
    rcases mem_positions_iff.1 ht with ⟨hi, hij⟩ | h | h
    · exact ⟨hi, hij ▸ hi⟩
    · obtain ⟨hij, hj⟩ := hrange _ _ h
      exact ⟨hij.trans hj, hj⟩
    · obtain ⟨hji, hi⟩ := hrange _ _ h
      exact ⟨hi, hji.trans hi⟩
  have hnodup : (positions n edges).Nodup :=
    nodup_positions hedges fun a b hab ↦ (hrange a b hab).1
  rw [← hposition] at hnodup
  obtain ⟨M, hM, hrows, hcols, hholds⟩ := CsrMatrix.exists_ofTriplets_of_nodup hlt hnodup
  exact ⟨M, hM, hrows, hcols, hholds⟩

namespace Fills

theorem holds_diagonal (h : Fills n edges values diagonal onDiagonal forward backward M) {i : Nat}
    {d : α × α} (hd : diagonal[i]? = some d) : M.Holds i i (onDiagonal d) :=
  (h.holds_iff i i _).2 (mem_triplets_iff.2 (.inl ⟨i, d, hd, rfl⟩))

theorem holds_edge (h : Fills n edges values diagonal onDiagonal forward backward M) {a b : Nat}
    {v : EdgeValues α} (hv : ((a, b), v) ∈ edges.zip values) :
    M.Holds a b (forward v) ∧ M.Holds b a (backward v) :=
  ⟨(h.holds_iff a b _).2 (mem_triplets_iff.2 (.inr ⟨a, b, v, hv, .inl rfl⟩)),
    (h.holds_iff b a _).2 (mem_triplets_iff.2 (.inr ⟨a, b, v, hv, .inr rfl⟩))⟩

theorem holds_comm (h : Fills n edges values diagonal onDiagonal forward forward M) {i j : Nat}
    {w : α} (hw : M.Holds i j w) : M.Holds j i w :=
  (h.holds_iff j i w).2 (mem_triplets_comm ((h.holds_iff i j w).1 hw))

theorem stored_iff (h : Fills n edges values diagonal onDiagonal forward backward M)
    (hvalues : values.length = edges.length) (hdiagonal : diagonal.length = n) (i j : Nat) :
    M.pattern.Stored i j ↔ (i < n ∧ i = j) ∨ (i, j) ∈ edges ∨ (j, i) ∈ edges := by
  have hposition : (triplets edges values diagonal onDiagonal forward backward).map
      Triplet.position = positions n edges := map_position_triplets hvalues hdiagonal
  rw [CsrMatrix.stored_iff_exists_holds, ← mem_positions_iff, ← hposition, List.mem_map]
  simp only [h.holds_iff]
  constructor
  · intro ⟨v, hv⟩
    exact ⟨_, hv, rfl⟩
  · intro ⟨t, ht, heq⟩
    cases heq
    exact ⟨t.value, ht⟩

end Fills

end Matrices

variable {α : Type} [Scalar α] {values : List (EdgeValues α)} {diagonal : List (α × α)}
  {mass advection : CsrMatrix α}

/-- Numbers as they are drawn for the masses: one for each edge, not negative, and one for each
node, positive. -/
structure IsDraw (n : Nat) (edges : List (Nat × Nat)) (masses : List α)
    (diagonal : List (α × α)) : Prop where
  length_masses : masses.length = edges.length
  length_diagonal : diagonal.length = n
  masses_nonneg : ∀ m ∈ masses, 0 ≤ m
  diagonal_pos : ∀ d ∈ diagonal, 0 < d.1

namespace IsDraw

theorem length_eq {β : Type} {l : List β} {mass : β → α}
    (hdraw : IsDraw n edges (l.map mass) diagonal) : l.length = edges.length := by
  rw [← hdraw.length_masses, List.length_map]

variable (hdraw : IsDraw n edges (values.map (·.mass)) diagonal)

include hdraw

theorem nonneg_of_mem_triplets [NonnegativeSums α] {t : Triplet α}
    (ht : t ∈ triplets edges values diagonal (·.1) (·.mass) (·.mass)) : 0 ≤ t.value := by
  have hmass : ∀ e v, (e, v) ∈ edges.zip values → 0 ≤ v.mass := by
    intro e v hv
    exact hdraw.masses_nonneg _ (List.mem_map_of_mem (List.of_mem_zip hv).2)
  rcases mem_triplets_iff.1 ht with ⟨i, d, hd, rfl⟩ | ⟨a, b, v, hv, rfl | rfl⟩
  · exact NonnegativeSums.nonneg_of_pos (hdraw.diagonal_pos d (List.mem_of_getElem? hd))
  · exact hmass _ v hv
  · exact hmass _ v hv

theorem lumpable [NonnegativeSums α]
    (hmass : Fills n edges values diagonal (·.1) (·.mass) (·.mass) mass)
    (hadvection : Fills n edges values diagonal (·.2) (·.forward) (·.backward) advection) :
    GraphOperator.Lumpable n mass advection where
  mass_numRows := hmass.numRows_eq
  mass_numCols := hmass.numCols_eq
  advection_numRows := hadvection.numRows_eq
  advection_numCols := hadvection.numCols_eq
  stored_iff i j := by
    rw [hmass.stored_iff hdraw.length_eq hdraw.length_diagonal,
      hadvection.stored_iff hdraw.length_eq hdraw.length_diagonal]
  holds_comm _ _ _ := hmass.holds_comm
  nonneg i j m hm := hdraw.nonneg_of_mem_triplets ((hmass.holds_iff i j m).1 hm)
  exists_pos i hi := by
    rw [← hdraw.length_diagonal] at hi
    have hd := List.getElem?_eq_getElem hi
    exact ⟨i, _, hmass.holds_diagonal hd, hdraw.diagonal_pos _ (List.getElem_mem hi)⟩

end IsDraw

/-- The operator stores the diagonal and the two directions of every edge, each with the values
that belong to it. -/
structure IsDrawn (n : Nat) (edges : List (Nat × Nat)) (values : List (EdgeValues α))
    (diagonal : List (α × α)) (g : GraphOperator α) : Prop where
  accepted : g.Accepted
  numNodes_eq : g.numNodes = n
  stored_iff : ∀ i j, g.pattern.Stored i j ↔
    (i < n ∧ i = j) ∨ (i, j) ∈ edges ∨ (j, i) ∈ edges
  diagonal_holds : ∀ i d, diagonal[i]? = some d →
    g.mass.Holds i i d.1 ∧ g.advection.Holds i i d.2
  edge_holds : ∀ a b v, ((a, b), v) ∈ edges.zip values →
    g.mass.Holds a b v.mass ∧ g.mass.Holds b a v.mass ∧
      g.advection.Holds a b v.forward ∧ g.advection.Holds b a v.backward

theorem exists_operator [NonnegativeSums α] (hedges : edges.Nodup)
    (hrange : ∀ a b, (a, b) ∈ edges → a < b ∧ b < n)
    (hdraw : IsDraw n edges (values.map (·.mass)) diagonal) :
    ∃ g, operator n edges values diagonal = .ok g ∧ IsDrawn n edges values diagonal g := by
  have hvalues := hdraw.length_eq
  have hdiagonal := hdraw.length_diagonal
  obtain ⟨mass, hmass, hfills⟩ :=
    exists_fills hedges hrange hvalues hdiagonal (·.1) (·.mass) (·.mass)
  obtain ⟨advection, hadvection, hfills'⟩ :=
    exists_fills hedges hrange hvalues hdiagonal (·.2) (·.forward) (·.backward)
  obtain ⟨g, hg, rfl, rfl, -, haccepted⟩ := (hdraw.lumpable hfills hfills').exists_fromMatrices
  refine ⟨g, ?_, haccepted, ?_, hfills.stored_iff hvalues hdiagonal, ?_, ?_⟩
  · change (CsrMatrix.ofTriplets n n
      (triplets edges values diagonal (·.1) (·.mass) (·.mass)) >>= _) = _
    rw [hmass, ok_bind]
    change (CsrMatrix.ofTriplets n n
      (triplets edges values diagonal (·.2) (·.forward) (·.backward)) >>= _) = _
    rw [hadvection, ok_bind, hg]
    rfl
  · rw [← haccepted.numRows_eq]
    exact hfills.numRows_eq
  · intro i d hd
    exact ⟨hfills.holds_diagonal hd, hfills'.holds_diagonal hd⟩
  · intro a b v hv
    obtain ⟨hab, hba⟩ := hfills.holds_edge hv
    exact ⟨hab, hba, hfills'.holds_edge hv⟩

end GraphTransport.RandomGraph
