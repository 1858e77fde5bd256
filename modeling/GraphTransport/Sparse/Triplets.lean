import GraphTransport.Violation
import GraphTransport.Sparse.Matrix

namespace GraphTransport

def addEntry {α : Type} [Add α] (j : Nat) (v : α) : List (Nat × α) → List (Nat × α)
  | [] => [(j, v)]
  | (k, w) :: row =>
    if j < k then (j, v) :: (k, w) :: row
    else if j = k then (k, w + v) :: row
    else (k, w) :: addEntry j v row

theorem mem_addEntry_column {α : Type} [Add α] {j : Nat} {v : α} {row : List (Nat × α)}
    {e : Nat × α} (he : e ∈ addEntry j v row) : e.1 = j ∨ ∃ e' ∈ row, e'.1 = e.1 := by
  induction row with
  | nil => simp_all [addEntry]
  | cons first row ih =>
    obtain ⟨k, w⟩ := first
    unfold addEntry at he
    split at he
    · rcases List.mem_cons.1 he with rfl | he
      · exact .inl rfl
      · exact .inr ⟨e, he, rfl⟩
    · split at he
      · rcases List.mem_cons.1 he with rfl | he
        · exact .inr ⟨(k, w), by simp, rfl⟩
        · exact .inr ⟨e, by simp [he], rfl⟩
      · rcases List.mem_cons.1 he with rfl | he
        · exact .inr ⟨(k, w), by simp, rfl⟩
        · rcases ih he with h | ⟨e', he', h⟩
          · exact .inl h
          · exact .inr ⟨e', by simp [he'], h⟩

theorem pairwise_addEntry {α : Type} [Add α] (j : Nat) (v : α) {row : List (Nat × α)}
    (h : row.Pairwise fun e e' ↦ e.1 < e'.1) :
    (addEntry j v row).Pairwise fun e e' ↦ e.1 < e'.1 := by
  induction row with
  | nil => simp [addEntry]
  | cons first row ih =>
    obtain ⟨k, w⟩ := first
    obtain ⟨hfirst, hrow⟩ := List.pairwise_cons.1 h
    unfold addEntry
    split
    · next hjk =>
      refine List.pairwise_cons.2 ⟨fun e he ↦ ?_, h⟩
      rcases List.mem_cons.1 he with rfl | he
      · exact hjk
      · exact Nat.lt_trans hjk (hfirst e he)
    · split
      · exact List.pairwise_cons.2 ⟨hfirst, hrow⟩
      · refine List.pairwise_cons.2 ⟨fun e he ↦ ?_, ih hrow⟩
        rcases mem_addEntry_column he with he | ⟨e', he', heq⟩
        · show k < e.1
          omega
        · exact heq ▸ hfirst e' he'

structure SparseRow (α : Type) (numCols : Nat) where
  entries : List (Nat × α)
  ascending : entries.Pairwise fun e e' ↦ e.1 < e'.1
  inRange : ∀ e ∈ entries, e.1 < numCols

namespace SparseRow

def empty {α : Type} {numCols : Nat} : SparseRow α numCols := ⟨[], .nil, by simp⟩

def add {α : Type} [Add α] {numCols : Nat} (row : SparseRow α numCols) (j : Nat) (v : α)
    (hj : j < numCols) : SparseRow α numCols where
  entries := addEntry j v row.entries
  ascending := pairwise_addEntry j v row.ascending
  inRange := by
    intro e he
    rcases mem_addEntry_column he with h | ⟨e', he', h⟩
    · exact h ▸ hj
    · exact h ▸ row.inRange e' he'

end SparseRow

structure Triplet (α : Type) where
  row : Nat
  column : Nat
  value : α
deriving Repr

namespace CsrMatrix

def ofRows {α : Type} {numCols : Nat} (rows : List (SparseRow α numCols)) : CsrMatrix α where
  pattern := SparsityPattern.ofLanes numCols (rows.map fun row ↦ row.entries.map (·.1))
    (by
      intro lane hlane
      obtain ⟨row, _, rfl⟩ := List.mem_map.1 hlane
      exact List.pairwise_map.2 row.ascending)
    (by
      intro lane hlane j hj
      obtain ⟨row, _, rfl⟩ := List.mem_map.1 hlane
      obtain ⟨e, he, rfl⟩ := List.mem_map.1 hj
      exact row.inRange e he)
  values := (rows.flatMap fun row ↦ row.entries.map (·.2)).toArray
  size_values := by
    simp [SparsityPattern.nnz, SparsityPattern.ofLanes, List.length_flatMap, Function.comp_def]

section Triplets

variable {α : Type} [Add α] {numRows numCols : Nat}

def addTriplet (rows : Vector (SparseRow α numCols) numRows) (e : Triplet α) :
    Except Violation (Vector (SparseRow α numCols) numRows) :=
  if h : e.row < numRows ∧ e.column < numCols then
    .ok (rows.set e.row (rows[e.row].add e.column e.value h.2))
  else
    .error .indexOutOfBounds

/-- The matrix of the given dimensions with the given triplets added up, those of one position in
the order in which they come. A position is stored also when the sum is zero. -/
def ofTriplets (numRows numCols : Nat) (triplets : List (Triplet α)) :
    Except Violation (CsrMatrix α) := do
  let rows : Vector (SparseRow α numCols) numRows ←
    triplets.foldlM addTriplet (Vector.replicate numRows .empty)
  return ofRows rows.toList

end Triplets

end CsrMatrix

end GraphTransport
