import GraphTransport.Proofs.Sparse.Storage
import GraphTransport.Sparse.Matrix

namespace GraphTransport

namespace SparsityPattern

variable {P : SparsityPattern} {i j k l p q : Nat}

/-- The entry `(i, j)` is stored at offset `p`. -/
def Stores (P : SparsityPattern) (i j p : Nat) : Prop :=
  ∃ start stop, P.rowOffsets[i]? = some start ∧ P.rowOffsets[i + 1]? = some stop ∧
    start ≤ p ∧ p < stop ∧ P.columns[p]? = some j

def Stored (P : SparsityPattern) (i j : Nat) : Prop := ∃ p, P.Stores i j p

theorem stores_iff_find? : P.Stores i j p ↔ P.find? i j = some p := by
  rw [find?_eq_some_iff, mem_storage]
  constructor
  · rintro ⟨start, stop, hstart, hstop, hp, hp', hj⟩
    have hi : i + 1 ≤ P.numRows := by
      have h := (Array.getElem?_eq_some_iff.1 hstop).1
      rw [P.size_rowOffsets] at h
      omega
    rw [P.rowOffsets_getElem? (by omega)] at hstart
    rw [P.rowOffsets_getElem? hi] at hstop
    cases hstart
    cases hstop
    refine ⟨⟨hp, hp'⟩, ?_⟩
    rw [column, Array.getD_eq_getD_getElem?, hj, Option.getD_some]
  · rintro ⟨hp, rfl⟩
    have hi := lt_numRows_of_mem_storage (mem_storage.2 hp)
    exact ⟨_, _, P.rowOffsets_getElem? hi.le, P.rowOffsets_getElem? hi, hp.1, hp.2,
      P.columns_getElem? (hp.2.trans_le P.offset_le_nnz)⟩

theorem stored_iff_isSome : P.Stored i j ↔ (P.find? i j).isSome := by
  rw [Option.isSome_iff_exists]
  exact exists_congr fun p ↦ stores_iff_find?

theorem find?_eq_none_iff : P.find? i j = none ↔ ¬ P.Stored i j := by
  rw [stored_iff_isSome, Option.not_isSome_iff_eq_none]

theorem Stores.lt_nnz (h : P.Stores i j p) : p < P.nnz := by
  obtain ⟨-, -, -, -, -, -, hj⟩ := h
  exact (Array.getElem?_eq_some_iff.1 hj).1

theorem exists_stores_of_lt (hp : p < P.nnz) : ∃ i j, P.Stores i j p := by
  obtain ⟨i, j, h⟩ := exists_find?_of_lt hp
  exact ⟨i, j, stores_iff_find?.2 h⟩

theorem entries_getElem?_eq_some_iff {e : Entry} :
    P.entries[p]? = some e ↔ e.offset = p ∧ P.Stores e.row e.column p := by
  constructor
  · intro h
    have hfind := mem_entries.1 (List.mem_of_getElem? h)
    have hoffset : p = e.offset := by
      have hmap := congrArg (Option.map Entry.offset) h
      rw [← List.getElem?_map, P.map_offset_entries, Option.map_some] at hmap
      simpa using (List.getElem?_eq_some_iff.1 hmap).2
    exact ⟨hoffset.symm, stores_iff_find?.2 (hoffset ▸ hfind)⟩
  · rintro ⟨rfl, h⟩
    exact entries_getElem? (stores_iff_find?.1 h)

theorem entries_find?_eq_some_iff {f : Entry → Bool} {e : Entry} :
    P.entries.find? f = some e ↔ P.Stores e.row e.column e.offset ∧ f e ∧
      ∀ q < e.offset, ∀ k l, P.Stores k l q → f ⟨k, l, q⟩ = false := by
  rw [List.find?_eq_some_iff_getElem]
  constructor
  · rintro ⟨he, p, hp, hpe, hbefore⟩
    obtain ⟨rfl, hstores⟩ := entries_getElem?_eq_some_iff.1 (List.getElem?_eq_some_iff.2 ⟨hp, hpe⟩)
    refine ⟨hstores, he, fun q hq k l hkl ↦ ?_⟩
    have hentry : P.entries[q]? = some ⟨k, l, q⟩ := entries_getElem?_eq_some_iff.2 ⟨rfl, hkl⟩
    obtain ⟨hlt, hentry⟩ := List.getElem?_eq_some_iff.1 hentry
    have hfalse := hbefore q hq
    rw [hentry] at hfalse
    simpa using hfalse
  · rintro ⟨hstores, he, hbefore⟩
    have hentry := entries_getElem?_eq_some_iff.2 ⟨rfl, hstores⟩
    obtain ⟨hp, hpe⟩ := List.getElem?_eq_some_iff.1 hentry
    refine ⟨he, e.offset, hp, hpe, fun q hq ↦ ?_⟩
    obtain ⟨k, l, hkl⟩ := exists_stores_of_lt (hq.trans hstores.lt_nnz)
    have hentry : P.entries[q]? = some ⟨k, l, q⟩ := entries_getElem?_eq_some_iff.2 ⟨rfl, hkl⟩
    obtain ⟨hlt, hentry⟩ := List.getElem?_eq_some_iff.1 hentry
    rw [hentry, hbefore q hq k l hkl, Bool.not_false]

theorem Stores.eq_of_offset_eq (h : P.Stores i j p) (h' : P.Stores k l p) : i = k ∧ j = l := by
  have hentry := entries_getElem? (stores_iff_find?.1 h)
  rw [entries_getElem? (stores_iff_find?.1 h')] at hentry
  cases hentry
  exact ⟨rfl, rfl⟩

theorem Stores.offset_unique (h : P.Stores i j p) (h' : P.Stores i j q) : p = q :=
  Option.some.inj ((stores_iff_find?.1 h).symm.trans (stores_iff_find?.1 h'))

theorem stored_lt (h : P.Stored i j) : i < P.numRows ∧ j < P.numCols := by
  obtain ⟨p, hstores⟩ := h
  obtain ⟨hp, rfl⟩ := find?_eq_some_iff.1 (stores_iff_find?.1 hstores)
  exact ⟨lt_numRows_of_mem_storage hp, P.column_lt (lt_nnz_of_mem_storage hp)⟩

theorem eq_of_stored_iff {Q : SparsityPattern} (hrows : P.numRows = Q.numRows)
    (hcols : P.numCols = Q.numCols) (hstored : ∀ i j, P.Stored i j ↔ Q.Stored i j) : P = Q := by
  have hlane (i : Nat) : (P.storage i).map P.column = (Q.storage i).map Q.column := by
    rw [map_column_storage, map_column_storage, hcols]
    refine List.filter_congr fun j _ ↦ ?_
    rw [Bool.eq_iff_iff, ← stored_iff_isSome, ← stored_iff_isSome, hstored]
  have hoffset : P.offset = Q.offset := by
    funext n
    have hlength (R : SparsityPattern) :
        R.offset n = ((List.range n).flatMap fun i ↦ (R.storage i).map R.column).length := by
      rw [← List.map_flatMap, List.length_map, R.flatMap_storage, List.length_range]
    rw [hlength P, hlength Q]
    simp only [hlane]
  have hcolumns : P.columns = Q.columns := by
    have htoList (R : SparsityPattern) : R.columns.toList =
        (List.range R.numRows).flatMap fun i ↦ (R.storage i).map R.column := by
      rw [← List.map_flatMap, R.flatMap_storage, R.offset_of_le le_rfl]
      exact toList_eq_map_range R.columns
    rw [← Array.toList_inj, htoList P, htoList Q, hrows]
    simp only [hlane]
  have hoffsets : P.rowOffsets = Q.rowOffsets := by
    refine Array.ext (by rw [P.size_rowOffsets, Q.size_rowOffsets, hrows]) fun i hi hi' ↦ ?_
    have hrow : i ≤ P.numRows := by
      rw [P.size_rowOffsets] at hi
      omega
    refine Option.some.inj ?_
    rw [← Array.getElem?_eq_getElem, ← Array.getElem?_eq_getElem, P.rowOffsets_getElem? hrow,
      Q.rowOffsets_getElem? (hrow.trans_eq hrows), hoffset]
  cases P
  cases Q
  simp_all

end SparsityPattern

namespace CsrMatrix

variable {α : Type} {M : CsrMatrix α} {i j p : Nat} {v w : α}

def Holds (M : CsrMatrix α) (i j : Nat) (v : α) : Prop :=
  ∃ p, M.pattern.Stores i j p ∧ M.values[p]? = some v

theorem Holds.unique (h : M.Holds i j v) (h' : M.Holds i j w) : v = w := by
  obtain ⟨p, hp, hv⟩ := h
  obtain ⟨q, hq, hw⟩ := h'
  obtain rfl := hp.offset_unique hq
  exact Option.some.inj (hv.symm.trans hw)

theorem values_getElem?_of_stores [Zero α] (h : M.pattern.Stores i j p) :
    M.values[p]? = some (M.values.getD p 0) := by
  have hp : p < M.values.size := h.lt_nnz.trans_eq M.size_values.symm
  rw [getD_of_lt hp, Array.getElem?_eq_getElem hp]

theorem holds_of_stores [Zero α] (h : M.pattern.Stores i j p) :
    M.Holds i j (M.values.getD p 0) :=
  ⟨p, h, values_getElem?_of_stores h⟩

theorem stored_iff_exists_holds : M.pattern.Stored i j ↔ ∃ v, M.Holds i j v := by
  constructor
  · rintro ⟨p, hp⟩
    have hlt : p < M.values.size := hp.lt_nnz.trans_eq M.size_values.symm
    exact ⟨M.values[p], p, hp, Array.getElem?_eq_getElem hlt⟩
  · rintro ⟨v, p, hp, -⟩
    exact ⟨p, hp⟩

theorem mem_rowValues_iff : v ∈ M.rowValues i ↔ ∃ j, M.Holds i j v := by
  rw [rowValues, List.mem_filterMap]
  constructor
  · rintro ⟨p, hp, hv⟩
    exact ⟨_, p, SparsityPattern.stores_iff_find?.2 (SparsityPattern.find?_column hp), hv⟩
  · rintro ⟨j, p, hp, hv⟩
    have hp := SparsityPattern.find?_eq_some_iff.1 (SparsityPattern.stores_iff_find?.1 hp)
    exact ⟨p, hp.1, hv⟩

def value? (M : CsrMatrix α) (i j : Nat) : Option α :=
  (M.pattern.find? i j).bind fun p ↦ M.values[p]?

theorem value?_eq_some_iff : M.value? i j = some v ↔ M.Holds i j v := by
  simp only [value?, Option.bind_eq_some_iff, Holds, SparsityPattern.stores_iff_find?]

end CsrMatrix

end GraphTransport
