import GraphTransport.Proofs.Traversal
import GraphTransport.Sparse.Pattern

namespace GraphTransport.SparsityPattern

variable (P : SparsityPattern) {i j p q : Nat}

/-- The column stored at offset `p`; offsets past the last one count as column zero. -/
def column (p : Nat) : Nat := P.columns.getD p 0

theorem columns_getElem? (hp : p < P.nnz) : P.columns[p]? = some (P.column p) := by
  rw [Array.getElem?_eq_getElem hp, column, getD_of_lt hp]

theorem column_lt (hp : p < P.nnz) : P.column p < P.numCols := by
  refine P.columns_lt _ ?_
  exact Array.mem_of_getElem? (P.columns_getElem? hp)

theorem rowOffsets_getElem? (hi : i ≤ P.numRows) : P.rowOffsets[i]? = some (P.offset i) := by
  have h : i < P.rowOffsets.size := by rw [P.size_rowOffsets]; omega
  rw [Array.getElem?_eq_getElem h, offset, getD_of_lt h]

theorem offset_of_le (hi : P.numRows ≤ i) : P.offset i = P.nnz := by
  rw [offset, Array.getD_eq_getD_getElem?]
  rcases Nat.lt_or_eq_of_le hi with h | rfl
  · rw [Array.getElem?_eq_none (by rw [P.size_rowOffsets]; omega), Option.getD_none]
  · rw [P.rowOffsets_last, Option.getD_some, nnz]

theorem offset_zero : P.offset 0 = 0 := by
  have h := P.rowOffsets_getElem? (Nat.zero_le _)
  rw [P.rowOffsets_zero] at h
  exact (Option.some.inj h).symm

theorem offset_mono : Monotone P.offset := by
  refine monotone_nat_of_le_succ fun i ↦ ?_
  rcases Nat.lt_or_ge i P.numRows with hi | hi
  · exact P.rowOffsets_mono i _ _ (P.rowOffsets_getElem? hi.le) (P.rowOffsets_getElem? hi)
  · rw [P.offset_of_le hi, P.offset_of_le (hi.trans (Nat.le_succ i))]

theorem offset_le_nnz : P.offset i ≤ P.nnz := by
  rcases Nat.le_total i P.numRows with hi | hi
  · exact (P.offset_mono hi).trans (P.offset_of_le le_rfl).le
  · exact (P.offset_of_le hi).le

variable {P}

theorem mem_storage : p ∈ P.storage i ↔ P.offset i ≤ p ∧ p < P.offset (i + 1) := by
  have h : P.offset i ≤ P.offset (i + 1) := P.offset_mono (Nat.le_succ i)
  rw [storage, List.mem_range'_1]
  omega

theorem lt_nnz_of_mem_storage (hp : p ∈ P.storage i) : p < P.nnz :=
  (mem_storage.1 hp).2.trans_le P.offset_le_nnz

theorem fetch_columns (hp : p ∈ P.storage i) : fetch P.columns p = .ok (P.column p) :=
  fetch_eq_ok_iff.2 (P.columns_getElem? (lt_nnz_of_mem_storage hp))

theorem lt_numRows_of_mem_storage (hp : p ∈ P.storage i) : i < P.numRows := by
  by_contra hi
  have h := mem_storage.1 hp
  rw [P.offset_of_le (by omega), P.offset_of_le (by omega)] at h
  omega

theorem column_lt_column (hp : p ∈ P.storage i) (hq : q ∈ P.storage i) (hpq : p < q) :
    P.column p < P.column q := by
  have hi := lt_numRows_of_mem_storage hp
  exact P.columns_ascending i _ _ (P.rowOffsets_getElem? hi.le) (P.rowOffsets_getElem? hi) p q _ _
    (mem_storage.1 hp).1 hpq (mem_storage.1 hq).2
    (P.columns_getElem? (lt_nnz_of_mem_storage hp)) (P.columns_getElem? (lt_nnz_of_mem_storage hq))

theorem eq_of_column_eq (hp : p ∈ P.storage i) (hq : q ∈ P.storage i)
    (h : P.column p = P.column q) : p = q := by
  rcases Nat.lt_trichotomy p q with hlt | heq | hlt
  · exact absurd (column_lt_column hp hq hlt) h.not_lt
  · exact heq
  · exact absurd (column_lt_column hq hp hlt) h.symm.not_lt

theorem find?_eq_some_iff : P.find? i j = some p ↔ p ∈ P.storage i ∧ P.column p = j := by
  have hcolumn : ∀ q ∈ P.storage i, (P.columns[q]? == some j) = true ↔ P.column q = j := by
    intro q hq
    rw [P.columns_getElem? (lt_nnz_of_mem_storage hq)]
    simp
  have hfound : ∀ q, P.find? i j = some q → q ∈ P.storage i ∧ P.column q = j := by
    intro q hq
    have hqs : q ∈ P.storage i := List.mem_of_find?_eq_some hq
    exact ⟨hqs, (hcolumn q hqs).1 (List.find?_eq_some_iff_append.1 hq).1⟩
  refine ⟨hfound p, fun ⟨hp, hj⟩ ↦ ?_⟩
  have hsome : (P.find? i j).isSome := List.find?_isSome.2 ⟨p, hp, (hcolumn p hp).2 hj⟩
  obtain ⟨q, hq⟩ := Option.isSome_iff_exists.1 hsome
  obtain ⟨hqs, hqj⟩ := hfound q hq
  rw [hq, eq_of_column_eq hqs hp (hqj.trans hj.symm)]

theorem find?_column (hp : p ∈ P.storage i) : P.find? i (P.column p) = some p :=
  find?_eq_some_iff.2 ⟨hp, rfl⟩

theorem map_column_storage (i : Nat) :
    (P.storage i).map P.column =
      (List.range P.numCols).filter fun j ↦ (P.find? i j).isSome := by
  have hsorted : ((P.storage i).map P.column).Pairwise (· < ·) := by
    have hstorage : (P.storage i).Pairwise (· < ·) := List.pairwise_lt_range'
    exact List.pairwise_map.2 (hstorage.imp_of_mem column_lt_column)
  rw [eq_filter_range hsorted (n := P.numCols)]
  · refine List.filter_congr fun j _ ↦ ?_
    rw [Bool.eq_iff_iff, decide_eq_true_iff, List.mem_map, Option.isSome_iff_exists]
    simp only [find?_eq_some_iff]
  · intro j hj
    obtain ⟨p, hp, rfl⟩ := List.mem_map.1 hj
    exact P.column_lt (lt_nnz_of_mem_storage hp)

variable (P)

theorem flatMap_storage (n : Nat) :
    (List.range n).flatMap P.storage = List.range (P.offset n) :=
  flatMap_range'_sub P.offset_mono P.offset_zero n

theorem storage_eq_filterMap (i : Nat) :
    P.storage i = (List.range P.numCols).filterMap (P.find? i) := by
  have hfound : ((P.storage i).map P.column).filterMap (P.find? i) = P.storage i := by
    rw [List.filterMap_map, ← List.map_id (P.storage i), List.filterMap_map]
    apply List.filterMap_eq_map_iff_forall_eq_some.2
    intro p hp
    exact find?_column hp
  rw [← hfound, map_column_storage]
  apply filterMap_filter_isSome
  intro j hj
  simpa using hj

theorem entries_eq_flatMap : P.entries =
    (List.range P.numRows).flatMap fun i ↦ (P.storage i).map fun p ↦ ⟨i, P.column p, p⟩ := by
  refine List.flatMap_congr fun i _ ↦ ?_
  refine List.filterMap_eq_map_iff_forall_eq_some.2 fun p hp ↦ ?_
  rw [P.columns_getElem? (lt_nnz_of_mem_storage hp), Option.map_some]

theorem map_offset_entries : P.entries.map (·.offset) = List.range P.nnz := by
  rw [← P.offset_of_le le_rfl, ← P.flatMap_storage, P.entries_eq_flatMap, List.map_flatMap]
  simp only [List.map_map, Function.comp_def, List.map_id']

theorem length_entries : P.entries.length = P.nnz := by
  rw [← List.length_range (n := P.nnz), ← P.map_offset_entries, List.length_map]

variable {P}

theorem mem_entries {e : Entry} : e ∈ P.entries ↔ P.find? e.row e.column = some e.offset := by
  rw [P.entries_eq_flatMap, find?_eq_some_iff]
  simp only [List.mem_flatMap, List.mem_range, List.mem_map]
  constructor
  · rintro ⟨i, -, p, hp, rfl⟩
    exact ⟨hp, rfl⟩
  · rintro ⟨hp, hj⟩
    exact ⟨e.row, lt_numRows_of_mem_storage hp, e.offset, hp, by rw [hj]⟩

theorem entries_getElem? (h : P.find? i j = some p) : P.entries[p]? = some ⟨i, j, p⟩ := by
  have hmem : (⟨i, j, p⟩ : Entry) ∈ P.entries := mem_entries.2 h
  obtain ⟨k, hk⟩ := List.getElem?_of_mem hmem
  have hoffset := congrArg (Option.map Entry.offset) hk
  rw [← List.getElem?_map, P.map_offset_entries, Option.map_some, List.getElem?_eq_some_iff]
    at hoffset
  obtain ⟨_, hoffset⟩ := hoffset
  obtain rfl : k = p := by simpa using hoffset
  exact hk

theorem exists_find?_of_lt (hp : p < P.nnz) : ∃ i j, P.find? i j = some p := by
  have hmem : p ∈ P.entries.map (·.offset) := by
    rw [P.map_offset_entries]
    exact List.mem_range.2 hp
  obtain ⟨e, he, rfl⟩ := List.mem_map.1 hmem
  exact ⟨e.row, e.column, mem_entries.1 he⟩

end GraphTransport.SparsityPattern
