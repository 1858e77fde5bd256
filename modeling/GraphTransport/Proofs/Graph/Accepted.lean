import GraphTransport.Proofs.Sparse.Entries
import GraphTransport.Graph.Basic

namespace GraphTransport

variable {α : Type}

theorem CsrMatrix.checkSquare_eq_ok_iff {name : String} {A : CsrMatrix α} {u : Unit} :
    A.checkSquare name = .ok u ↔ A.numRows = A.numCols := by
  unfold checkSquare
  split <;> simp_all

theorem checkLumpedMass_eq_ok_iff [Scalar α] {n : Nat} {lumped : Array α} {u : Unit} :
    checkLumpedMass n lumped = .ok u ↔ lumped.size = n ∧ ∀ m ∈ lumped, 0 < m := by
  unfold checkLumpedMass
  split
  · next h => simp [h]
  · next h =>
    cases hfind : lumped.findIdx? fun m ↦ !decide (0 < m) with
    | none => simpa [not_not.1 h] using hfind
    | some dof =>
      have hbad : ¬ ∀ m ∈ lumped, 0 < m := by
        intro hpos
        have hnone : lumped.findIdx? (fun m ↦ !decide (0 < m)) = none := by simpa using hpos
        rw [hnone] at hfind
        exact absurd hfind (by simp)
      simp [hbad]

theorem SparsityPattern.exists_transpose {P : SparsityPattern} {transposed : Array Nat}
    {i j p : Nat} (htransposed : P.transposeOffsets = .ok transposed)
    (h : P.find? i j = some p) : ∃ q, transposed[p]? = some q ∧ P.find? j i = some q := by
  rw [transposeOffsets, bind_eq_ok] at htransposed
  obtain ⟨offsets, hoffsets, hto⟩ := htransposed
  obtain rfl : offsets.toArray = transposed := Except.ok.inj hto
  obtain ⟨q, hq, hfind⟩ := getElem?_of_mapM_eq_ok hoffsets (entries_getElem? h)
  refine ⟨q, by simpa using hq, ?_⟩
  cases hji : P.find? j i with
  | none => simp [hji] at hfind
  | some q' =>
    obtain rfl : q' = q := by simpa [hji] using hfind
    rfl

namespace GraphOperator

structure Accepted [Scalar α] (g : GraphOperator α) : Prop where
  mass_square : g.mass.numRows = g.mass.numCols
  advection_square : g.advection.numRows = g.advection.numCols
  pattern_eq : g.mass.pattern = g.advection.pattern
  transposed : g.mass.pattern.transposeOffsets = .ok g.transposeOffsets
  symmetric : g.mass.checkSymmetric g.transposeOffsets = .ok ()
  size_lumped : g.lumpedMass.size = g.mass.numRows
  lumped_pos : ∀ m ∈ g.lumpedMass, 0 < m

theorem withLumpedMass_eq_ok_iff [Scalar α] {mass advection : CsrMatrix α} {lumped : Array α}
    {g : GraphOperator α} : withLumpedMass mass advection lumped = .ok g ↔
      g.mass = mass ∧ g.advection = advection ∧ g.lumpedMass = lumped ∧ g.Accepted := by
  constructor
  · intro h
    simp only [withLumpedMass, bind_eq_ok] at h
    obtain ⟨_, hmass, _, hadvection, h⟩ := h
    split at h
    · exact absurd h (by simp [throw, throwThe, MonadExceptOf.throw, bind, Except.bind])
    · next hpattern =>
      simp only [bind_eq_ok, checkLumpedMass_eq_ok_iff] at h
      obtain ⟨offsets, htransposed, _, hsymmetric, _, ⟨hsize, hpos⟩, h⟩ := h
      obtain rfl : _ = g := by simpa [pure, Except.pure] using h
      exact ⟨rfl, rfl, rfl, CsrMatrix.checkSquare_eq_ok_iff.1 hmass,
        CsrMatrix.checkSquare_eq_ok_iff.1 hadvection, not_not.1 hpattern, htransposed, hsymmetric,
        hsize, hpos⟩
  · rintro ⟨rfl, rfl, rfl, h⟩
    have hlumped : checkLumpedMass g.mass.numRows g.lumpedMass = .ok () :=
      checkLumpedMass_eq_ok_iff.2 ⟨h.size_lumped, h.lumped_pos⟩
    have hmass : g.mass.checkSquare "mass" = .ok () :=
      CsrMatrix.checkSquare_eq_ok_iff.2 h.mass_square
    have hadvection : g.advection.checkSquare "advection" = .ok () :=
      CsrMatrix.checkSquare_eq_ok_iff.2 h.advection_square
    simp only [withLumpedMass, hmass, hadvection, ok_bind, h.pattern_eq, ne_eq, not_true_eq_false,
      if_false]
    rw [← h.pattern_eq, h.transposed, ok_bind, h.symmetric, ok_bind, hlumped, ok_bind]
    rfl

theorem accepted_of_withLumpedMass [Scalar α] {mass advection : CsrMatrix α} {lumped : Array α}
    {g : GraphOperator α} (h : withLumpedMass mass advection lumped = .ok g) : g.Accepted :=
  (withLumpedMass_eq_ok_iff.1 h).2.2.2

theorem size_mass (g : GraphOperator α) : g.mass.values.size = g.nnz := g.mass.size_values

namespace Accepted

variable [Scalar α] {g : GraphOperator α} {i j p q : Nat}

theorem numRows_eq (hg : g.Accepted) : g.pattern.numRows = g.numNodes := hg.size_lumped.symm

theorem numCols_eq (hg : g.Accepted) : g.pattern.numCols = g.numNodes :=
  hg.mass_square.symm.trans hg.numRows_eq

theorem size_advection (hg : g.Accepted) : g.advection.values.size = g.nnz := by
  rw [g.advection.size_values, ← hg.pattern_eq]
  rfl

theorem size_transposeOffsets (hg : g.Accepted) : g.transposeOffsets.size = g.nnz := by
  have htransposed := hg.transposed
  rw [SparsityPattern.transposeOffsets, bind_eq_ok] at htransposed
  obtain ⟨offsets, hoffsets, hto⟩ := htransposed
  have hsize := congrArg Array.size (Except.ok.inj hto)
  rw [← hsize, List.size_toArray, length_of_mapM_eq_ok hoffsets, SparsityPattern.length_entries]
  rfl

theorem lt_numNodes_of_find? (hg : g.Accepted) (h : g.pattern.find? i j = some p) :
    i < g.numNodes ∧ j < g.numNodes ∧ p < g.nnz := by
  obtain ⟨hp, rfl⟩ := SparsityPattern.find?_eq_some_iff.1 h
  have hp' := SparsityPattern.lt_nnz_of_mem_storage hp
  refine ⟨?_, ?_, hp'⟩
  · rw [← hg.numRows_eq]
    exact SparsityPattern.lt_numRows_of_mem_storage hp
  · rw [← hg.numCols_eq]
    exact g.pattern.column_lt hp'

theorem transpose (hg : g.Accepted) (h : g.pattern.find? i j = some p) :
    ∃ q, g.transposeOffsets[p]? = some q ∧ g.pattern.find? j i = some q :=
  SparsityPattern.exists_transpose hg.transposed h

theorem transpose_of_find? (hg : g.Accepted) (h : g.pattern.find? i j = some p)
    (h' : g.pattern.find? j i = some q) : g.transposeOffsets[p]? = some q := by
  obtain ⟨q', hq, hq'⟩ := hg.transpose h
  rw [hq, ← hq', h']

theorem mass_beq (hg : g.Accepted) (h : g.pattern.find? i j = some p)
    (h' : g.pattern.find? j i = some q) :
    (g.mass.values.getD p 0 == g.mass.values.getD q 0) = true := by
  have hp : p < g.mass.values.size := (hg.lt_numNodes_of_find? h).2.2.trans_eq (size_mass g).symm
  have hq : q < g.mass.values.size := (hg.lt_numNodes_of_find? h').2.2.trans_eq (size_mass g).symm
  have hsymmetric := hg.symmetric
  unfold CsrMatrix.checkSymmetric at hsymmetric
  dsimp only at hsymmetric
  split at hsymmetric
  · exact absurd hsymmetric (by simp)
  · next hnone =>
    have hentry := List.find?_eq_none.1 hnone ⟨i, j, p⟩ (SparsityPattern.mem_entries.2 h)
    simpa [hg.transpose_of_find? h h', hp, hq] using hentry

theorem transpose_stores (hg : g.Accepted) (h : g.pattern.Stores i j p) :
    ∃ q, g.transposeOffsets[p]? = some q ∧ g.pattern.Stores j i q := by
  obtain ⟨q, hpq, hq⟩ := hg.transpose (SparsityPattern.stores_iff_find?.1 h)
  exact ⟨q, hpq, SparsityPattern.stores_iff_find?.2 hq⟩

theorem mass_beq_of_holds (hg : g.Accepted) {m m' : α} (h : g.mass.Holds i j m)
    (h' : g.mass.Holds j i m') : (m == m') = true := by
  obtain ⟨p, hp, hm⟩ := h
  obtain ⟨q, hq, hm'⟩ := h'
  have hbeq := hg.mass_beq (SparsityPattern.stores_iff_find?.1 hp)
    (SparsityPattern.stores_iff_find?.1 hq)
  rwa [Array.getD_eq_getD_getElem?, Array.getD_eq_getD_getElem?, hm, hm'] at hbeq

theorem lumped_getD_pos (hg : g.Accepted) (hi : i < g.numNodes) :
    0 < g.lumpedMass.getD i 0 := by
  rw [getD_of_lt hi]
  exact hg.lumped_pos _ (Array.getElem_mem hi)

end Accepted

end GraphOperator

end GraphTransport
