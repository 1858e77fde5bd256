namespace GraphTransport

def laneOffsets {β : Type} (start : Nat) : List (List β) → List Nat
  | [] => [start]
  | lane :: lanes => start :: laneOffsets (start + lane.length) lanes

theorem laneOffsets_getElem? {β : Type} (lanes : List (List β)) (start i : Nat) :
    (laneOffsets start lanes)[i]? =
      if i ≤ lanes.length then some (start + (lanes.take i).flatten.length) else none := by
  induction lanes generalizing start i with
  | nil => cases i <;> simp [laneOffsets]
  | cons lane lanes ih =>
    cases i with
    | zero => simp [laneOffsets]
    | succ i => simp [laneOffsets, ih, Nat.add_assoc]

theorem length_laneOffsets {β : Type} (lanes : List (List β)) (start : Nat) :
    (laneOffsets start lanes).length = lanes.length + 1 := by
  induction lanes generalizing start with
  | nil => rfl
  | cons lane lanes ih => simp [laneOffsets, ih]

theorem flatten_getElem?_take {β : Type} (lanes : List (List β)) (i k : Nat)
    (lane : List β) (hlane : lanes[i]? = some lane) (hk : k < lane.length) :
    lanes.flatten[(lanes.take i).flatten.length + k]? = lane[k]? := by
  induction lanes generalizing i with
  | nil => simp at hlane
  | cons first lanes ih =>
    cases i with
    | zero =>
      obtain rfl : first = lane := by simpa using hlane
      simp [List.getElem?_append, hk]
    | succ i =>
      rw [List.take_succ_cons, List.flatten_cons, List.flatten_cons, List.length_append,
        Nat.add_assoc, List.getElem?_append_right (Nat.le_add_right _ _), Nat.add_sub_cancel_left]
      exact ih i (by simpa using hlane)

theorem exists_lane_of_laneOffsets {β : Type} {lanes : List (List β)} {i a b : Nat}
    (ha : (laneOffsets 0 lanes)[i]? = some a) (hb : (laneOffsets 0 lanes)[i + 1]? = some b) :
    ∃ lane, lanes[i]? = some lane ∧ a = (lanes.take i).flatten.length ∧ b = a + lane.length := by
  have hi : i < lanes.length := by
    have := (List.getElem?_eq_some_iff.1 hb).1
    rw [length_laneOffsets] at this
    omega
  rw [laneOffsets_getElem?, if_pos (by omega), Nat.zero_add, Option.some.injEq] at ha
  rw [laneOffsets_getElem?, if_pos (by omega), Nat.zero_add, Option.some.injEq] at hb
  refine ⟨lanes[i], List.getElem?_eq_getElem hi, ha.symm, ?_⟩
  have htake : lanes.take (i + 1) = lanes.take i ++ [lanes[i]] := by simp
  rw [← ha, ← hb, htake, List.flatten_append, List.length_append]
  simp

/-- The stored positions of a matrix, row by row. The *storage offset* of an entry is its position
in the list of all of them. -/
structure SparsityPattern where
  numRows : Nat
  numCols : Nat
  rowOffsets : Array Nat
  columns : Array Nat
  size_rowOffsets : rowOffsets.size = numRows + 1
  rowOffsets_zero : rowOffsets[0]? = some 0
  rowOffsets_last : rowOffsets[numRows]? = some columns.size
  rowOffsets_mono : ∀ i a b,
    rowOffsets[i]? = some a → rowOffsets[i + 1]? = some b → a ≤ b
  columns_lt : ∀ j ∈ columns, j < numCols
  columns_ascending : ∀ i a b, rowOffsets[i]? = some a → rowOffsets[i + 1]? = some b →
    ∀ p q j k, a ≤ p → p < q → q < b → columns[p]? = some j → columns[q]? = some k → j < k
deriving DecidableEq

namespace SparsityPattern

def ofLanes (numCols : Nat) (lanes : List (List Nat))
    (ascending : ∀ lane ∈ lanes, lane.Pairwise (· < ·))
    (inRange : ∀ lane ∈ lanes, ∀ j ∈ lane, j < numCols) : SparsityPattern where
  numRows := lanes.length
  numCols := numCols
  rowOffsets := (laneOffsets 0 lanes).toArray
  columns := lanes.flatten.toArray
  size_rowOffsets := by simp [length_laneOffsets]
  rowOffsets_zero := by simp [laneOffsets_getElem?]
  rowOffsets_last := by simp [laneOffsets_getElem?]
  rowOffsets_mono := by
    intro i a b ha hb
    obtain ⟨lane, _, _, rfl⟩ :=
      exists_lane_of_laneOffsets (by simpa using ha) (by simpa using hb)
    exact Nat.le_add_right a lane.length
  columns_lt := by
    intro j hj
    obtain ⟨lane, hlane, hj⟩ : ∃ lane ∈ lanes, j ∈ lane := by simpa using hj
    exact inRange lane hlane j hj
  columns_ascending := by
    intro i a b ha hb p q j k hp hpq hq hj hk
    obtain ⟨lane, hlane, rfl, rfl⟩ :=
      exists_lane_of_laneOffsets (by simpa using ha) (by simpa using hb)
    obtain ⟨m, rfl⟩ := Nat.exists_eq_add_of_le hp
    obtain ⟨n, rfl⟩ := Nat.exists_eq_add_of_le (Nat.le_trans hp (Nat.le_of_lt hpq))
    rw [List.getElem?_toArray, flatten_getElem?_take lanes i _ lane hlane (by omega),
      List.getElem?_eq_some_iff] at hj hk
    obtain ⟨hm, rfl⟩ := hj
    obtain ⟨hn, rfl⟩ := hk
    exact List.pairwise_iff_getElem.1 (ascending lane (List.mem_of_getElem? hlane)) m n hm hn
      (by omega)

def nnz (P : SparsityPattern) : Nat := P.columns.size

/-- The storage offset at which row `i` begins; rows past the last one begin where it ends. -/
def offset (P : SparsityPattern) (i : Nat) : Nat := P.rowOffsets.getD i P.nnz

def storage (P : SparsityPattern) (i : Nat) : List Nat :=
  List.range' (P.offset i) (P.offset (i + 1) - P.offset i)

def find? (P : SparsityPattern) (i j : Nat) : Option Nat :=
  (P.storage i).find? fun p ↦ P.columns[p]? == some j

structure Entry where
  row : Nat
  column : Nat
  offset : Nat
deriving DecidableEq, Repr

def entries (P : SparsityPattern) : List Entry :=
  (List.range P.numRows).flatMap fun i ↦
    (P.storage i).filterMap fun p ↦ P.columns[p]?.map fun j ↦ ⟨i, j, p⟩

end SparsityPattern

end GraphTransport
