import Mathlib.Data.Prod.Lex
import GraphTransport.RandomGraph

namespace GraphTransport.RandomGraph

variable {e x : Nat × Nat} {l s : List (Nat × Nat)}

def Ascending (l : List (Nat × Nat)) : Prop := l.Pairwise fun e e' ↦ toLex e < toLex e'

theorem Ascending.nodup (h : Ascending l) : l.Nodup := h.imp fun h heq ↦ h.ne (congrArg toLex heq)

theorem mem_insertPair_iff : x ∈ insertPair e l ↔ x = e ∨ x ∈ l := by
  induction l with
  | nil => simp [insertPair]
  | cons first l ih =>
    unfold insertPair
    split
    · next heq => simp [heq]
    · split
      · rw [List.mem_cons]
      · rw [List.mem_cons, ih, List.mem_cons, or_left_comm]

theorem Ascending.insertPair (h : Ascending l) (e : Nat × Nat) :
    Ascending (insertPair e l) := by
  induction l with
  | nil => exact List.pairwise_singleton _ _
  | cons first l ih =>
    obtain ⟨hfirst, hl⟩ := List.pairwise_cons.1 h
    unfold RandomGraph.insertPair
    split
    · exact h
    · next hne =>
      split
      · next hlt =>
        have hlt : toLex e < toLex first := Prod.Lex.toLex_lt_toLex.2 hlt
        refine List.pairwise_cons.2 ⟨List.forall_mem_cons.2 ⟨hlt, ?_⟩, h⟩
        intro x hx
        exact hlt.trans (hfirst x hx)
      · next hge =>
        have hge : ¬ toLex e < toLex first := mt Prod.Lex.toLex_lt_toLex.1 hge
        have hlt : toLex first < toLex e :=
          lt_of_le_of_ne (not_lt.1 hge) fun heq ↦ hne (toLex.injective heq).symm
        refine List.pairwise_cons.2 ⟨fun x hx ↦ ?_, ih hl⟩
        rcases mem_insertPair_iff.1 hx with rfl | hx
        · exact hlt
        · exact hfirst x hx

section Fold

variable (f : Nat × Nat → Nat × Nat)

theorem ascending_foldl_insertPair (h : Ascending s) :
    Ascending (l.foldl (fun sorted e ↦ insertPair (f e) sorted) s) := by
  induction l generalizing s with
  | nil => exact h
  | cons e l ih => exact ih (h.insertPair (f e))

theorem mem_foldl_insertPair_iff :
    x ∈ l.foldl (fun sorted e ↦ insertPair (f e) sorted) s ↔ x ∈ s ∨ x ∈ l.map f := by
  induction l generalizing s with
  | nil => simp
  | cons e l ih =>
    rw [List.foldl_cons, ih, mem_insertPair_iff, List.map_cons, List.mem_cons, or_assoc,
      or_left_comm]

end Fold

variable {n : Nat} {extra : List (Nat × Nat)} {a b : Nat}

def oriented (e : Nat × Nat) : Nat × Nat := (min e.1 e.2, max e.1 e.2)

theorem undirectedEdges_eq (n : Nat) (extra : List (Nat × Nat)) : undirectedEdges n extra =
    ((ring n ++ extra).filter fun e ↦ e.1 != e.2).foldl
      (fun sorted e ↦ insertPair (oriented e) sorted) [] := rfl

theorem ascending_undirectedEdges (n : Nat) (extra : List (Nat × Nat)) :
    Ascending (undirectedEdges n extra) := by
  rw [undirectedEdges_eq]
  exact ascending_foldl_insertPair oriented .nil

theorem mem_undirectedEdges_iff : (a, b) ∈ undirectedEdges n extra ↔
    a < b ∧ ((a, b) ∈ ring n ++ extra ∨ (b, a) ∈ ring n ++ extra) := by
  rw [undirectedEdges_eq, mem_foldl_insertPair_iff]
  simp only [List.not_mem_nil, false_or, List.mem_map, List.mem_filter, oriented]
  constructor
  · intro h
    obtain ⟨⟨i, j⟩, ⟨hmem, hloop⟩, heq⟩ := h
    have hloop : i ≠ j := by simpa using hloop
    cases heq
    rcases lt_or_gt_of_ne hloop with hij | hji
    · rw [min_eq_left hij.le, max_eq_right hij.le]
      exact ⟨hij, .inl hmem⟩
    · rw [min_eq_right hji.le, max_eq_left hji.le]
      exact ⟨hji, .inr hmem⟩
  · intro h
    obtain ⟨hab, h | h⟩ := h
    · refine ⟨(a, b), ⟨h, by simpa using hab.ne⟩, ?_⟩
      rw [min_eq_left hab.le, max_eq_right hab.le]
    · refine ⟨(b, a), ⟨h, by simpa using hab.ne'⟩, ?_⟩
      rw [min_eq_right hab.le, max_eq_left hab.le]

theorem mem_ring_iff : (a, b) ∈ ring n ↔ a < n ∧ (a + 1) % n = b := by
  simp only [ring, List.mem_map, List.mem_range, Prod.mk.injEq]
  exact ⟨fun ⟨i, hi, hia, hib⟩ ↦ ⟨hia ▸ hi, hia ▸ hib⟩, fun ⟨ha, hab⟩ ↦ ⟨a, ha, rfl, hab⟩⟩

theorem lt_of_mem_undirectedEdges (hextra : ∀ e ∈ extra, e.1 < n ∧ e.2 < n)
    (h : (a, b) ∈ undirectedEdges n extra) : a < b ∧ b < n := by
  have hrange : ∀ i j, (i, j) ∈ ring n ++ extra → i < n ∧ j < n := by
    intro i j hij
    rcases List.mem_append.1 hij with hij | hij
    · obtain ⟨hi, rfl⟩ := mem_ring_iff.1 hij
      exact ⟨hi, Nat.mod_lt _ (Nat.zero_lt_of_lt hi)⟩
    · exact hextra _ hij
  obtain ⟨hab, h | h⟩ := mem_undirectedEdges_iff.1 h
  · exact ⟨hab, (hrange a b h).2⟩
  · exact ⟨hab, (hrange b a h).1⟩

end GraphTransport.RandomGraph
