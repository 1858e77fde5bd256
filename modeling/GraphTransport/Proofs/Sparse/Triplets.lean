import GraphTransport.Proofs.Sparse.Entries
import GraphTransport.Sparse.Triplets

namespace GraphTransport

variable {α : Type}

section Rows

variable {row : List (Nat × α)} {j k : Nat} {v w : α}

theorem lookup_cons_eq_ite (row : List (Nat × α)) (j k : Nat) (v : α) :
    ((j, v) :: row).lookup k = if k = j then some v else row.lookup k := by
  rw [List.lookup_cons]
  by_cases hkj : k = j
  · simp [hkj]
  · rw [beq_eq_false_iff_ne.2 hkj, if_neg hkj]

theorem lookup_eq_none_of_lt (h : ∀ e ∈ row, j < e.1) : row.lookup j = none := by
  rw [List.lookup_eq_none_iff]
  intro e he
  simpa using (h e he).ne

theorem lookup_eq_some_iff_mem (h : row.Pairwise fun e e' ↦ e.1 < e'.1) :
    row.lookup j = some v ↔ (j, v) ∈ row :=
  lookup_eq_some_iff_of_nodup (List.pairwise_map.2 (h.imp ne_of_lt))

theorem lookup_addEntry [Add α] (h : row.Pairwise fun e e' ↦ e.1 < e'.1) (j : Nat) (v : α)
    (k : Nat) : (addEntry j v row).lookup k =
      if k = j then some ((row.lookup j).elim v (· + v)) else row.lookup k := by
  induction row with
  | nil => exact lookup_cons_eq_ite [] j k v
  | cons first row ih =>
    obtain ⟨l, w⟩ := first
    obtain ⟨hfirst, hrow⟩ := List.pairwise_cons.1 h
    rw [addEntry]
    rcases Nat.lt_trichotomy j l with hjl | rfl | hlj
    · have hnone : ((l, w) :: row).lookup j = none := by
        refine lookup_eq_none_of_lt fun e he ↦ ?_
        rcases List.mem_cons.1 he with rfl | he
        · exact hjl
        · exact hjl.trans (hfirst e he)
      rw [if_pos hjl, lookup_cons_eq_ite, hnone]
      rfl
    · rw [if_neg (Nat.lt_irrefl j), if_pos rfl, lookup_cons_eq_ite, lookup_cons_eq_ite,
        lookup_cons_eq_ite, if_pos rfl]
      by_cases hkj : k = j <;> simp [hkj]
    · rw [if_neg hlj.not_gt, if_neg hlj.ne', lookup_cons_eq_ite, ih hrow, lookup_cons_eq_ite,
        lookup_cons_eq_ite, if_neg hlj.ne']
      by_cases hkl : k = l
      · rw [if_pos hkl, if_neg (hkl ▸ hlj.ne), if_pos hkl]
      · rw [if_neg hkl, if_neg hkl]

end Rows

namespace SparsityPattern

variable {P : SparsityPattern} {i j : Nat}

theorem stores_iff_of_lanes {lanes : List (List Nat)} {p : Nat}
    (hoffsets : P.rowOffsets = (laneOffsets 0 lanes).toArray)
    (hcolumns : P.columns = lanes.flatten.toArray) : P.Stores i j p ↔
      ∃ lane k, lanes[i]? = some lane ∧ lane[k]? = some j ∧
        p = (lanes.take i).flatten.length + k := by
  rw [Stores, hoffsets, hcolumns]
  simp only [List.getElem?_toArray]
  constructor
  · rintro ⟨start, stop, hstart, hstop, hp, hp', hj⟩
    obtain ⟨lane, hlane, rfl, rfl⟩ := exists_lane_of_laneOffsets hstart hstop
    obtain ⟨k, rfl⟩ := Nat.exists_eq_add_of_le hp
    rw [flatten_getElem?_take lanes i k lane hlane (by omega)] at hj
    exact ⟨lane, k, hlane, hj, rfl⟩
  · rintro ⟨lane, k, hlane, hj, rfl⟩
    obtain ⟨hi, rfl⟩ := List.getElem?_eq_some_iff.1 hlane
    have hk := (List.getElem?_eq_some_iff.1 hj).1
    have htake : (lanes.take (i + 1)).flatten.length =
        (lanes.take i).flatten.length + lanes[i].length := by
      rw [List.take_succ_eq_append_getElem hi, List.flatten_append, List.length_append,
        List.flatten_singleton]
    refine ⟨_, _, by rw [laneOffsets_getElem?, if_pos hi.le, Nat.zero_add],
      by rw [laneOffsets_getElem?, if_pos (Nat.succ_le_of_lt hi), Nat.zero_add],
      Nat.le_add_right _ k, ?_, ?_⟩
    · rw [htake]
      exact Nat.add_lt_add_left hk _
    · rw [flatten_getElem?_take lanes i k _ hlane hk, hj]

end SparsityPattern

theorem CsrMatrix.numRows_ofRows {numCols : Nat} (rows : List (SparseRow α numCols)) :
    (ofRows rows).numRows = rows.length := List.length_map _

theorem CsrMatrix.holds_ofRows_iff {numCols i j : Nat} {v : α}
    {rows : List (SparseRow α numCols)} :
    (ofRows rows).Holds i j v ↔ ∃ row, rows[i]? = some row ∧ (j, v) ∈ row.entries := by
  let columns := rows.map fun row ↦ row.entries.map (·.1)
  let values := rows.map fun row ↦ row.entries.map (·.2)
  have hstart : (columns.take i).flatten.length = (values.take i).flatten.length := by
    simp only [columns, values, ← List.map_take, List.length_flatten, List.map_map,
      Function.comp_def, List.length_map]
  have hvalue {row : SparseRow α numCols} (hrow : rows[i]? = some row) {k : Nat}
      (hk : k < row.entries.length) :
      (ofRows rows).values[(columns.take i).flatten.length + k]? = some row.entries[k].2 := by
    have hlane : values[i]? = some (row.entries.map (·.2)) := by simp [values, hrow]
    have h := flatten_getElem?_take values i k _ hlane (by simpa using hk)
    rw [← hstart, List.getElem?_map, List.getElem?_eq_getElem hk, Option.map_some] at h
    simpa only [ofRows, List.flatMap_def, List.getElem?_toArray] using h
  have hstores (p : Nat) : (ofRows rows).pattern.Stores i j p ↔ ∃ lane k,
      columns[i]? = some lane ∧ lane[k]? = some j ∧ p = (columns.take i).flatten.length + k :=
    SparsityPattern.stores_iff_of_lanes rfl rfl
  constructor
  · rintro ⟨p, hp, hv⟩
    obtain ⟨lane, k, hlane, hj, rfl⟩ := (hstores p).1 hp
    obtain ⟨row, hrow, rfl⟩ : ∃ row, rows[i]? = some row ∧ row.entries.map (·.1) = lane := by
      simpa [columns] using hlane
    obtain ⟨hk, rfl⟩ := List.getElem?_eq_some_iff.1 hj
    rw [List.length_map] at hk
    obtain rfl := Option.some.inj ((hvalue hrow hk).symm.trans hv)
    exact ⟨row, hrow, by simp⟩
  · rintro ⟨row, hrow, hmem⟩
    obtain ⟨k, hk, hentry⟩ := List.getElem_of_mem hmem
    have hlane : columns[i]? = some (row.entries.map (·.1)) := by simp [columns, hrow]
    refine ⟨_, (hstores _).2 ⟨_, k, hlane, by simp [hk, hentry], rfl⟩, ?_⟩
    rw [hvalue hrow hk, hentry]

section Triplets

/-- The values of the triplets at `(i, j)`, in the order in which they come. -/
def Triplet.valuesAt (triplets : List (Triplet α)) (i j : Nat) : List α :=
  (triplets.filter fun e ↦ e.row = i ∧ e.column = j).map (·.value)

theorem Triplet.mem_valuesAt_iff {triplets : List (Triplet α)} {i j : Nat} {v : α} :
    v ∈ valuesAt triplets i j ↔ (⟨i, j, v⟩ : Triplet α) ∈ triplets := by
  simp only [valuesAt, List.mem_map, List.mem_filter, decide_eq_true_eq]
  constructor
  · rintro ⟨e, ⟨he, rfl, rfl⟩, rfl⟩
    exact he
  · intro h
    exact ⟨_, ⟨h, rfl, rfl⟩, rfl⟩

def Triplet.position (e : Triplet α) : Nat × Nat := (e.row, e.column)

theorem Triplet.valuesAt_eq_singleton {triplets : List (Triplet α)} {i j : Nat} {v : α}
    (hnodup : (triplets.map position).Nodup) (h : (⟨i, j, v⟩ : Triplet α) ∈ triplets) :
    valuesAt triplets i j = [v] := by
  induction triplets with
  | nil => simp at h
  | cons e triplets ih =>
    obtain ⟨hfirst, hrest⟩ := List.nodup_cons.1 hnodup
    by_cases he : e.row = i ∧ e.column = j
    · have habsent : ∀ w, (⟨i, j, w⟩ : Triplet α) ∉ triplets := by
        intro w hw
        refine hfirst (List.mem_map.2 ⟨_, hw, ?_⟩)
        rw [position, position, he.1, he.2]
      have hnil : valuesAt triplets i j = [] := by
        rw [List.eq_nil_iff_forall_not_mem]
        exact fun w hw ↦ habsent w (mem_valuesAt_iff.1 hw)
      obtain rfl : ⟨i, j, v⟩ = e := (List.mem_cons.1 h).resolve_right (habsent v)
      rw [valuesAt] at hnil ⊢
      rw [List.filter_cons_of_pos (by simp), List.map_cons, hnil]
    · have hne : (⟨i, j, v⟩ : Triplet α) ≠ e := by
        intro heq
        exact he (heq ▸ ⟨rfl, rfl⟩)
      rw [valuesAt, List.filter_cons_of_neg (by simpa using he)]
      exact ih hrest ((List.mem_cons.1 h).resolve_left hne)

def addedUp [Add α] : List α → Option α
  | [] => none
  | v :: vs => some (vs.foldl (· + ·) v)

theorem addedUp_append_singleton [Add α] (vs : List α) (v : α) :
    addedUp (vs ++ [v]) = some ((addedUp vs).elim v (· + v)) := by
  cases vs with
  | nil => rfl
  | cons w vs => simp [addedUp]

theorem addedUp_eq_some_iff {M : Type} [AddMonoid M] {vs : List M} {v : M} :
    addedUp vs = some v ↔ vs ≠ [] ∧ vs.sum = v := by
  cases vs with
  | nil => simp [addedUp]
  | cons w vs => simp [addedUp, List.sum_eq_foldl]

theorem exists_addedUp_iff [Add α] {vs : List α} :
    (∃ v, addedUp vs = some v) ↔ ∃ v, v ∈ vs := by
  cases vs with
  | nil => simp [addedUp]
  | cons w vs => exact ⟨fun _ ↦ ⟨w, List.mem_cons_self⟩, fun _ ↦ ⟨_, rfl⟩⟩

theorem Triplet.valuesAt_append_singleton (triplets : List (Triplet α)) (e : Triplet α) (i j : Nat) :
    valuesAt (triplets ++ [e]) i j =
      if i = e.row ∧ j = e.column then valuesAt triplets i j ++ [e.value]
      else valuesAt triplets i j := by
  unfold valuesAt
  rw [List.filter_append, List.map_append]
  split
  · next h => simp [h.1, h.2]
  · next h =>
    have h : ¬ (e.row = i ∧ e.column = j) := fun h' ↦ h ⟨h'.1.symm, h'.2.symm⟩
    simp [h]

namespace CsrMatrix

variable [Add α] {numRows numCols : Nat}

theorem foldlM_addTriplet_eq_ok {triplets : List (Triplet α)}
    (h : ∀ e ∈ triplets, e.row < numRows ∧ e.column < numCols) :
    ∃ rows : Vector (SparseRow α numCols) numRows,
      triplets.foldlM addTriplet (Vector.replicate numRows .empty) = .ok rows ∧
      ∀ i (hi : i < numRows) j,
        rows[i].entries.lookup j = addedUp (Triplet.valuesAt triplets i j) := by
  -- The last triplet adds to the value that the ones before it leave at its position.
  induction triplets using List.reverseRecOn with
  | nil => exact ⟨_, rfl, fun i hi j ↦ by simp [SparseRow.empty, Triplet.valuesAt, addedUp]⟩
  | append_singleton triplets e ih =>
    obtain ⟨rows, hrows, hlookup⟩ := ih fun e' he' ↦ h e' (List.mem_append_left _ he')
    have he := h e (by simp)
    refine ⟨rows.set e.row (rows[e.row].add e.column e.value he.2), ?_, fun i hi j ↦ ?_⟩
    · rw [List.foldlM_append, hrows, ok_bind]
      simp [addTriplet, he]
    · rw [Triplet.valuesAt_append_singleton, Vector.getElem_set]
      by_cases hei : e.row = i
      · subst hei
        rw [if_pos rfl, SparseRow.add, lookup_addEntry rows[e.row].ascending, hlookup, hlookup]
        by_cases hj : j = e.column
        · subst hj
          rw [if_pos rfl, if_pos ⟨rfl, rfl⟩, addedUp_append_singleton]
        · rw [if_neg hj, if_neg (fun h ↦ hj h.2)]
      · rw [if_neg hei, if_neg (fun h ↦ hei h.1.symm), hlookup]

theorem exists_ofTriplets {triplets : List (Triplet α)}
    (h : ∀ e ∈ triplets, e.row < numRows ∧ e.column < numCols) :
    ∃ M, ofTriplets numRows numCols triplets = .ok M ∧ M.numRows = numRows ∧
      M.numCols = numCols ∧
      ∀ i j v, M.Holds i j v ↔ addedUp (Triplet.valuesAt triplets i j) = some v := by
  obtain ⟨rows, hrows, hlookup⟩ := foldlM_addTriplet_eq_ok h
  refine ⟨ofRows rows.toList, ?_, ?_, rfl, fun i j v ↦ ?_⟩
  · rw [ofTriplets, hrows]
    rfl
  · rw [numRows_ofRows, Vector.length_toList]
  rw [holds_ofRows_iff]
  by_cases hi : i < numRows
  · have hrow : rows.toList[i]? = some rows[i] := by simp [hi]
    simp only [hrow, Option.some.injEq, exists_eq_left', ← hlookup i hi,
      lookup_eq_some_iff_mem rows[i].ascending]
  · have hvalues : Triplet.valuesAt triplets i j = [] := by
      rw [Triplet.valuesAt, List.map_eq_nil_iff, List.filter_eq_nil_iff]
      intro e he hij
      have hij : e.row = i ∧ e.column = j := by simpa using hij
      exact hi (hij.1 ▸ (h e he).1)
    have hrow : rows.toList[i]? = none := by simp [hi]
    simp [hrow, hvalues, addedUp]

theorem exists_ofTriplets_of_nodup {triplets : List (Triplet α)}
    (h : ∀ e ∈ triplets, e.row < numRows ∧ e.column < numCols)
    (hnodup : (triplets.map Triplet.position).Nodup) :
    ∃ M, ofTriplets numRows numCols triplets = .ok M ∧ M.numRows = numRows ∧
      M.numCols = numCols ∧ ∀ i j v, M.Holds i j v ↔ ⟨i, j, v⟩ ∈ triplets := by
  obtain ⟨M, hM, hrows, hcols, hholds⟩ := exists_ofTriplets h
  refine ⟨M, hM, hrows, hcols, fun i j v ↦ ?_⟩
  rw [hholds]
  constructor
  · intro hv
    obtain ⟨w, hw⟩ := exists_addedUp_iff.1 ⟨v, hv⟩
    have hw := Triplet.mem_valuesAt_iff.1 hw
    rw [Triplet.valuesAt_eq_singleton hnodup hw] at hv
    obtain rfl : w = v := Option.some.inj hv
    exact hw
  · intro hv
    rw [Triplet.valuesAt_eq_singleton hnodup hv]
    rfl

end CsrMatrix

end Triplets

end GraphTransport
