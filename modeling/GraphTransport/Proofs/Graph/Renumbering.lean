import Mathlib.Data.Finset.Card
import Mathlib.Logic.Equiv.Basic
import GraphTransport.Proofs.Graph.Construction
import GraphTransport.Proofs.Graph.DenseView
import GraphTransport.Proofs.Sparse.Triplets

namespace GraphTransport

variable {α : Type} {s : Equiv.Perm Nat}

def RenumbersValues (s : Equiv.Perm Nat) (x x' : Array α) : Prop :=
  ∀ i : Nat, x'[s i]? = x[i]?

def renumberValues [Zero α] (s : Equiv.Perm Nat) (x : Array α) : Array α :=
  ((List.range x.size).map fun i ↦ x.getD (s.symm i) 0).toArray

theorem renumbersValues_renumberValues [Zero α] {x : Array α} (hs : ∀ i, s i < x.size ↔ i < x.size) :
    RenumbersValues s x (renumberValues s x) := by
  intro i
  by_cases hi : i < x.size
  · simp [renumberValues, (hs i).2 hi, hi]
  · simp [renumberValues, mt (hs i).1 hi, hi]

theorem eq_of_perm_lt_iff {m n : Nat} (h : ∀ i, s i < n ↔ i < m) : n = m := by
  have hmap : (Finset.range m).map s.toEmbedding = Finset.range n := by
    ext j
    rw [Finset.mem_map_equiv, Finset.mem_range, Finset.mem_range, ← h, Equiv.apply_symm_apply]
  rw [← Finset.card_range n, ← hmap, Finset.card_map, Finset.card_range]

namespace RenumbersValues

variable {x x' : Array α}

theorem lt_iff (h : RenumbersValues s x x') (i : Nat) : s i < x'.size ↔ i < x.size := by
  rw [← not_le, ← not_le, ← Array.getElem?_eq_none_iff, ← Array.getElem?_eq_none_iff, h i]

theorem size_eq (h : RenumbersValues s x x') : x'.size = x.size := eq_of_perm_lt_iff h.lt_iff

theorem symm (h : RenumbersValues s x x') : RenumbersValues s.symm x' x := fun i ↦ by
  rw [← h, Equiv.apply_symm_apply]

end RenumbersValues

namespace CsrMatrix

/-- The matrix `M'` has at `(s i, s j)` what `M` has at `(i, j)`. -/
structure Renumbers (s : Equiv.Perm Nat) (M M' : CsrMatrix α) : Prop where
  numRows_eq : M'.numRows = M.numRows
  numCols_eq : M'.numCols = M.numCols
  holds_iff : ∀ i j v, M'.Holds (s i) (s j) v ↔ M.Holds i j v

def renumberedRow (s : Equiv.Perm Nat) (M : CsrMatrix α) (k : Nat) : SparseRow α M.numCols where
  entries := (List.range M.numCols).filterMap fun l ↦
    (M.value? (s.symm k) (s.symm l)).map fun v ↦ (l, v)
  ascending := by
    apply List.Pairwise.filterMap _ _ List.pairwise_lt_range
    intro l l' hlt e he e' he'
    obtain ⟨v, -, rfl⟩ := Option.map_eq_some_iff.1 he
    obtain ⟨v', -, rfl⟩ := Option.map_eq_some_iff.1 he'
    exact hlt
  inRange := by
    intro e he
    obtain ⟨l, hl, he⟩ := List.mem_filterMap.1 he
    obtain ⟨v, -, rfl⟩ := Option.map_eq_some_iff.1 he
    exact List.mem_range.1 hl

def renumber (s : Equiv.Perm Nat) (M : CsrMatrix α) : CsrMatrix α :=
  ofRows ((List.range M.numRows).map (M.renumberedRow s))

theorem renumbers_renumber {M : CsrMatrix α} (hrows : ∀ i, s i < M.numRows ↔ i < M.numRows)
    (hcols : ∀ j, s j < M.numCols ↔ j < M.numCols) : M.Renumbers s (M.renumber s) where
  numRows_eq := by rw [renumber, numRows_ofRows, List.length_map, List.length_range]
  numCols_eq := rfl
  holds_iff i j v := by
    have hrow : (M.renumber s).Holds (s i) (s j) v ↔
        (s i < M.numRows ∧ s j < M.numCols) ∧ M.Holds i j v := by
      rw [renumber, holds_ofRows_iff, ← value?_eq_some_iff]
      by_cases hi : s i < M.numRows
      · simp [hi, renumberedRow]
      · simp [hi]
    rw [hrow, hrows, hcols, and_iff_right_iff_imp]
    intro h
    exact SparsityPattern.stored_lt (stored_iff_exists_holds.2 ⟨v, h⟩)

namespace Renumbers

variable {M M' : CsrMatrix α}

theorem symm (h : M.Renumbers s M') : M'.Renumbers s.symm M where
  numRows_eq := h.numRows_eq.symm
  numCols_eq := h.numCols_eq.symm
  holds_iff i j v := by
    rw [← h.holds_iff, Equiv.apply_symm_apply, Equiv.apply_symm_apply]

theorem stored_iff (h : M.Renumbers s M') (i j : Nat) :
    M'.pattern.Stored (s i) (s j) ↔ M.pattern.Stored i j := by
  simp only [stored_iff_exists_holds, h.holds_iff]

end Renumbers

end CsrMatrix

namespace GraphOperator

variable [Scalar α]

section Acceptance

variable {mass mass' advection advection' : CsrMatrix α} {lumped lumped' : Array α}

theorem Acceptable.renumbered (h : Acceptable mass advection lumped)
    (hmass : mass.Renumbers s mass') (hadvection : advection.Renumbers s advection')
    (hlumped : RenumbersValues s lumped lumped') : Acceptable mass' advection' lumped' where
  mass_square := by rw [hmass.numRows_eq, hmass.numCols_eq, h.mass_square]
  advection_square := by rw [hadvection.numRows_eq, hadvection.numCols_eq, h.advection_square]
  same_pattern := by
    have hrows : mass.numRows = advection.numRows :=
      congrArg SparsityPattern.numRows h.same_pattern
    have hcols : mass.numCols = advection.numCols :=
      congrArg SparsityPattern.numCols h.same_pattern
    apply SparsityPattern.eq_of_stored_iff
    · exact hmass.numRows_eq.trans (hrows.trans hadvection.numRows_eq.symm)
    · exact hmass.numCols_eq.trans (hcols.trans hadvection.numCols_eq.symm)
    · intro i j
      obtain ⟨i, rfl⟩ := s.surjective i
      obtain ⟨j, rfl⟩ := s.surjective j
      rw [hmass.stored_iff, hadvection.stored_iff, h.same_pattern]
  structurally_symmetric i j hij := by
    obtain ⟨i, rfl⟩ := s.surjective i
    obtain ⟨j, rfl⟩ := s.surjective j
    rw [hmass.stored_iff] at hij ⊢
    exact h.structurally_symmetric i j hij
  mass_symmetric i j m m' hm hm' := by
    obtain ⟨i, rfl⟩ := s.surjective i
    obtain ⟨j, rfl⟩ := s.surjective j
    rw [hmass.holds_iff] at hm hm'
    exact h.mass_symmetric i j m m' hm hm'
  lumped_length := by rw [hlumped.size_eq, hmass.numRows_eq, h.lumped_length]
  lumped_positive i m hm := by
    obtain ⟨i, rfl⟩ := s.surjective i
    rw [hlumped] at hm
    exact h.lumped_positive i m hm

theorem exists_withLumpedMass_renumbered_iff (hmass : mass.Renumbers s mass')
    (hadvection : advection.Renumbers s advection') (hsize : lumped'.size = lumped.size)
    (hlumped : lumped.size = mass.numRows → RenumbersValues s lumped lumped') :
    (∃ g, withLumpedMass mass advection lumped = .ok g) ↔
      ∃ g', withLumpedMass mass' advection' lumped' = .ok g' := by
  rw [exists_withLumpedMass_eq_ok_iff, exists_withLumpedMass_eq_ok_iff]
  constructor
  · intro h
    exact h.renumbered hmass hadvection (hlumped h.lumped_length)
  · intro h
    have hlength : lumped.size = mass.numRows := by
      rw [← hsize, h.lumped_length, hmass.numRows_eq]
    exact h.renumbered hmass.symm hadvection.symm (hlumped hlength).symm

end Acceptance

/-- Both graphs are accepted, and `g'` is `g` with the number `s i` for node `i`. -/
structure Renumbers (s : Equiv.Perm Nat) (g g' : GraphOperator α) : Prop where
  accepted : g.Accepted
  accepted' : g'.Accepted
  mass : g.mass.Renumbers s g'.mass
  advection : g.advection.Renumbers s g'.advection
  lumped : RenumbersValues s g.lumpedMass g'.lumpedMass

end GraphOperator

def Edge.renumber (s : Equiv.Perm Nat) (e : Edge α) : Edge α := { e with neighbor := s e.neighbor }

namespace GraphOperator.Renumbers

variable [Scalar α] {g g' : GraphOperator α} (h : g.Renumbers s g') {i j : Nat}
include h

theorem numNodes_eq : g'.numNodes = g.numNodes := h.lumped.size_eq

theorem lt_iff : s i < g.numNodes ↔ i < g.numNodes := by
  have hlt := h.lumped.lt_iff i
  rwa [h.lumped.size_eq] at hlt

theorem lumpedAt_eq : g'.lumpedAt (s i) = g.lumpedAt i := by
  rw [lumpedAt, lumpedAt, Array.getD_eq_getD_getElem?, Array.getD_eq_getD_getElem?, h.lumped]

theorem mem_neighbors_iff : s j ∈ g'.neighbors (s i) ↔ j ∈ g.neighbors i := by
  rw [GraphOperator.mem_neighbors_iff, GraphOperator.mem_neighbors_iff, h.numNodes_eq, h.lt_iff]
  exact and_congr_right fun _ ↦ h.mass.stored_iff i j

theorem edge?_eq : g'.edge? (s i) (s j) = (g.edge? i j).map (Edge.renumber s) := by
  ext e
  rw [h.accepted'.edge?_eq_some_iff_holds, h.mass.holds_iff, h.advection.holds_iff,
    h.advection.holds_iff, s.injective.ne_iff, Option.map_eq_some_iff]
  constructor
  · intro he
    exact ⟨{ e with neighbor := j }, h.accepted.edge?_eq_some_iff_holds.2 ⟨rfl, he.2⟩, by
      rw [Edge.renumber, ← he.1]⟩
  · rintro ⟨e, he, rfl⟩
    obtain ⟨rfl, he⟩ := h.accepted.edge?_eq_some_iff_holds.1 he
    exact ⟨rfl, he⟩

theorem viscosity?_eq : g'.viscosity? (s i) (s j) = g.viscosity? i j := by
  by_cases hij : g.pattern.Stored i j
  · obtain ⟨k, k', hk, hk'⟩ := h.accepted.exists_holds hij
    rw [h.accepted.viscosity?_eq_some hk hk', h.accepted'.viscosity?_eq_some
      ((h.advection.holds_iff i j k).2 hk) ((h.advection.holds_iff j i k').2 hk')]
  · rw [Accepted.viscosity?_eq_none hij,
      Accepted.viscosity?_eq_none (mt (h.mass.stored_iff i j).1 hij)]

end GraphOperator.Renumbers

end GraphTransport
