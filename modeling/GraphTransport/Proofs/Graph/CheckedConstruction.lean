import GraphTransport.Proofs.Graph.Construction

namespace GraphTransport

def fetchSlice {α : Type} (xs : Array α) (start stop : Nat) : Except Violation (List α) :=
  if start ≤ stop then (List.range' start (stop - start)).mapM (fetch xs)
  else .error .indexOutOfBounds

namespace SparsityPattern

def lane (P : SparsityPattern) (i : Nat) : Except Violation (List Nat) := do
  fetchSlice P.columns (← fetch P.rowOffsets i) (← fetch P.rowOffsets (i + 1))

def lookUp (P : SparsityPattern) (i j : Nat) : Except Violation (Option Nat) := do
  match (← P.lane i).idxOf? j with
  | some k => return some (k + (← fetch P.rowOffsets i))
  | none => return none

def lookUpTransposesOfRow (P : SparsityPattern) (i : Nat) :
    Except (Fault GraphError) (List Nat) := do
  (← Fault.ofViolation (P.lane i)).mapM fun j ↦ do
    match ← Fault.ofViolation (P.lookUp j i) with
    | some q => return q
    | none => throw (.refused (.notStructurallySymmetric i j))

def lookUpTransposes (P : SparsityPattern) : Except (Fault GraphError) (Array Nat) := do
  let rows ← (List.range P.numRows).mapM P.lookUpTransposesOfRow
  return rows.flatten.toArray

end SparsityPattern

namespace CsrMatrix

variable {α : Type}

def compareTransposesOfRow [BEq α] (M : CsrMatrix α) (transposed : Array Nat) (i : Nat) :
    Except (Fault GraphError) Unit := do
  let start ← Fault.ofViolation (fetch M.pattern.rowOffsets i)
  forM ((← Fault.ofViolation (M.pattern.lane i)).zipIdx start) fun (j, p) ↦ do
    let m ← Fault.ofViolation (fetch M.values p)
    let q ← Fault.ofViolation (fetch transposed p)
    let m' ← Fault.ofViolation (fetch M.values q)
    if m == m' then .ok () else .error (.refused (.massNotSymmetric i j))

def compareTransposes [BEq α] (M : CsrMatrix α) (transposed : Array Nat) :
    Except (Fault GraphError) Unit :=
  forM (List.range M.numRows) (M.compareTransposesOfRow transposed)

def sumLane [Scalar α] (M : CsrMatrix α) (i : Nat) : Except Violation α := do
  let row ← fetchSlice M.values (← fetch M.pattern.rowOffsets i)
    (← fetch M.pattern.rowOffsets (i + 1))
  return row.foldl (· + ·) 0

def sumLanes [Scalar α] (M : CsrMatrix α) : Except Violation (Array α) := do
  let sums ← (List.range M.numRows).mapM M.sumLane
  return sums.toArray

end CsrMatrix

namespace GraphOperator

variable {α : Type} [Scalar α]

def construct (mass advection : CsrMatrix α) (lumpedMass : Array α) :
    Except (Fault GraphError) (GraphOperator α) := do
  Fault.ofRefusal (mass.checkSquare "mass")
  Fault.ofRefusal (advection.checkSquare "advection")
  if mass.pattern ≠ advection.pattern then
    throw (.refused .sparsityMismatch)
  let transposeOffsets ← mass.pattern.lookUpTransposes
  mass.compareTransposes transposeOffsets
  Fault.ofRefusal (checkLumpedMass mass.numRows lumpedMass)
  return { mass, advection, lumpedMass, transposeOffsets }

def constructFromSums (mass advection : CsrMatrix α) :
    Except (Fault GraphError) (GraphOperator α) := do
  construct mass advection (← Fault.ofViolation mass.sumLanes)

end GraphOperator

theorem ofRefusal_bind {ε β γ : Type} (x : Except ε β) (f : β → Except ε γ) :
    (Fault.ofRefusal x >>= fun b ↦ Fault.ofRefusal (f b)) = Fault.ofRefusal (x >>= f) := by
  cases x <;> rfl

namespace SparsityPattern

variable {P : SparsityPattern} {i j : Nat}

theorem fetch_rowOffsets (hi : i ≤ P.numRows) : fetch P.rowOffsets i = .ok (P.offset i) :=
  fetch_eq_ok_iff.2 (P.rowOffsets_getElem? hi)

theorem fetchSlice_offsets {α : Type} (xs : Array α) (i : Nat) :
    fetchSlice xs (P.offset i) (P.offset (i + 1)) = (P.storage i).mapM (fetch xs) :=
  if_pos (P.offset_mono (Nat.le_succ i))

theorem lane_eq (hi : i < P.numRows) : P.lane i = .ok ((P.storage i).map P.column) := by
  rw [lane, fetch_rowOffsets hi.le, ok_bind, fetch_rowOffsets hi, ok_bind, fetchSlice_offsets]
  exact mapM_eq_ok_map fun p hp ↦ fetch_columns hp

theorem map_idxOf?_column (i j : Nat) :
    (((P.storage i).map P.column).idxOf? j).map (· + P.offset i) = P.find? i j := by
  cases hidx : ((P.storage i).map P.column).idxOf? j with
  | none =>
    symm
    rw [Option.map_none, Option.eq_none_iff_forall_not_mem]
    intro p hfind
    obtain ⟨hp, rfl⟩ := find?_eq_some_iff.1 hfind
    exact List.idxOf?_eq_none_iff.1 hidx (List.mem_map_of_mem hp)
  | some k =>
    obtain ⟨hk, hkj, -⟩ := List.idxOf?_eq_some_iff.1 hidx
    have hp : k + P.offset i ∈ P.storage i := by
      rw [List.length_map, storage, List.length_range'] at hk
      exact mem_storage.2 ⟨by omega, by omega⟩
    symm
    rw [Option.map_some, find?_eq_some_iff]
    refine ⟨hp, ?_⟩
    rw [← hkj, List.getElem_map]
    simp [storage, Nat.add_comm]

theorem zipIdx_map_column (i : Nat) :
    ((P.storage i).map P.column).zipIdx (P.offset i) =
      (P.storage i).map fun p ↦ (P.column p, p) := by
  have hoffsets : List.range' (P.offset i) ((P.storage i).map P.column).length =
      (P.storage i).map id := by
    simp [storage]
  rw [List.zipIdx_eq_zip_range', hoffsets, List.zip_map']
  rfl

theorem lookUp_eq (hi : i < P.numRows) (j : Nat) : P.lookUp i j = .ok (P.find? i j) := by
  rw [lookUp, lane_eq hi, ok_bind, ← map_idxOf?_column]
  cases ((P.storage i).map P.column).idxOf? j with
  | none => rfl
  | some k =>
    simp only [fetch_rowOffsets hi.le, ok_bind]
    rfl

theorem lookUpTransposesOfRow_eq (hsquare : P.numRows = P.numCols) (hi : i < P.numRows) :
    P.lookUpTransposesOfRow i = ((P.storage i).map fun p ↦ (⟨i, P.column p, p⟩ : Entry)).mapM
      fun e ↦ Fault.ofRefusal (P.transposeOf e) := by
  rw [lookUpTransposesOfRow, lane_eq hi, Fault.ofViolation_ok, ok_bind, List.mapM_map,
    List.mapM_map]
  apply mapM_congr
  intro p hp
  have hcolumn : P.column p < P.numRows :=
    (P.column_lt (lt_nnz_of_mem_storage hp)).trans_eq hsquare.symm
  simp only [Function.comp_apply, lookUp_eq hcolumn, transposeOf]
  cases P.find? (P.column p) i <;> rfl

theorem lookUpTransposes_eq (hsquare : P.numRows = P.numCols) :
    P.lookUpTransposes = Fault.ofRefusal P.transposeOffsets := by
  have hentries : ((List.range P.numRows).mapM P.lookUpTransposesOfRow >>=
      fun rows ↦ pure rows.flatten) = Fault.ofRefusal (P.entries.mapM P.transposeOf) := by
    rw [mapM_congr fun i hi ↦ lookUpTransposesOfRow_eq hsquare (List.mem_range.1 hi),
      mapM_mapM_eq_mapM_flatMap, ← entries_eq_flatMap]
    exact mapM_mapError P.transposeOf Fault.refused P.entries
  rw [transposeOffsets_eq_bind]
  calc P.lookUpTransposes
      = ((List.range P.numRows).mapM P.lookUpTransposesOfRow >>=
          fun rows ↦ pure rows.flatten) >>= fun offsets ↦ pure offsets.toArray := by
        rw [lookUpTransposes, bind_assoc]
        rfl
    _ = Fault.ofRefusal (P.entries.mapM P.transposeOf) >>= fun offsets ↦ pure offsets.toArray := by
        rw [hentries]
    _ = _ := by cases P.entries.mapM P.transposeOf <;> rfl

end SparsityPattern

namespace CsrMatrix

variable {α : Type} {M : CsrMatrix α}

theorem compareTransposesOfRow_eq [BEq α] {transposed : Array Nat}
    (htransposed : M.pattern.transposeOffsets = .ok transposed) {i : Nat} (hi : i < M.numRows) :
    M.compareTransposesOfRow transposed i =
      forM ((M.pattern.storage i).map fun p ↦ (⟨i, M.pattern.column p, p⟩ : SparsityPattern.Entry))
        fun e ↦ if M.agrees transposed e then .ok ()
          else .error (.refused (.massNotSymmetric e.row e.column)) := by
  have hi : i < M.pattern.numRows := hi
  rw [compareTransposesOfRow, SparsityPattern.fetch_rowOffsets hi.le, SparsityPattern.lane_eq hi,
    Fault.ofViolation_ok, ok_bind, Fault.ofViolation_ok, ok_bind, SparsityPattern.zipIdx_map_column,
    List.forM_map, List.forM_map]
  apply forM_congr
  intro p hp
  have hstores := SparsityPattern.stores_iff_find?.2 (SparsityPattern.find?_column hp)
  obtain ⟨q, m, m', hq, hm, hm', hji⟩ := exists_values_of_stores htransposed hstores
  simp only [agrees_eq htransposed hstores hm hji, fetch_eq_ok_iff.2 hm,
    fetch_eq_ok_iff.2 hq, fetch_eq_ok_iff.2 hm', Fault.ofViolation_ok, ok_bind]

theorem compareTransposes_eq [BEq α] {transposed : Array Nat}
    (htransposed : M.pattern.transposeOffsets = .ok transposed) :
    M.compareTransposes transposed = Fault.ofRefusal (M.checkSymmetric transposed) := by
  rw [compareTransposes,
    forM_congr fun i hi ↦ compareTransposesOfRow_eq htransposed (List.mem_range.1 hi),
    forM_forM_eq_forM_flatMap, numRows, ← M.pattern.entries_eq_flatMap, forM_ite_eq_find?,
    checkSymmetric_eq_find?]
  cases M.pattern.entries.find? fun e ↦ !M.agrees transposed e <;> rfl

theorem sumLane_eq [Scalar α] {i : Nat} (hi : i < M.numRows) :
    M.sumLane i = .ok ((M.rowValues i).foldl (· + ·) 0) := by
  have hi : i < M.pattern.numRows := hi
  have hsome (p : Nat) (hp : p ∈ M.pattern.storage i) : M.values[p]? = some (M.values.getD p 0) :=
    values_getElem?_of_stores (SparsityPattern.stores_iff_find?.2 (SparsityPattern.find?_column hp))
  have hvalues : (M.pattern.storage i).mapM (fetch M.values) = .ok (M.rowValues i) := by
    rw [mapM_eq_ok_map fun p hp ↦ fetch_eq_ok_iff.2 (hsome p hp), rowValues,
      List.filterMap_eq_map_iff_forall_eq_some.2 hsome]
  rw [sumLane, SparsityPattern.fetch_rowOffsets hi.le, ok_bind,
    SparsityPattern.fetch_rowOffsets hi, ok_bind, SparsityPattern.fetchSlice_offsets, hvalues]
  rfl

theorem sumLanes_eq [Scalar α] (M : CsrMatrix α) : M.sumLanes = .ok M.rowSums := by
  rw [sumLanes, mapM_eq_ok_map fun i hi ↦ sumLane_eq (List.mem_range.1 hi)]
  rfl

end CsrMatrix

namespace GraphOperator

variable {α : Type} [Scalar α] (mass advection : CsrMatrix α)

theorem construct_eq (lumped : Array α) :
    construct mass advection lumped = Fault.ofRefusal (withLumpedMass mass advection lumped) := by
  unfold construct withLumpedMass
  cases hsquare : mass.checkSquare "mass" with
  | error e => rfl
  | ok =>
    -- A column of a square matrix names one of its lanes, and two matrices of one pattern share the
    -- offsets, so the reads that follow these checks are in range.
    have hsquare := CsrMatrix.checkSquare_eq_ok_iff.1 hsquare
    rw [SparsityPattern.lookUpTransposes_eq hsquare]
    cases advection.checkSquare "advection" with
    | error e => rfl
    | ok =>
      by_cases hpattern : mass.pattern = advection.pattern
      · rw [if_neg (not_not.2 hpattern), if_neg (not_not.2 hpattern)]
        cases htransposed : mass.pattern.transposeOffsets with
        | error e => rfl
        | ok transposed =>
          let g : GraphOperator α := ⟨mass, advection, lumped, transposed⟩
          change (mass.compareTransposes transposed >>= fun _ ↦
            Fault.ofRefusal (checkLumpedMass mass.numRows lumped) >>= fun _ ↦
              Fault.ofRefusal (.ok g)) = _
          simp only [CsrMatrix.compareTransposes_eq htransposed, ofRefusal_bind]
          rfl
      · rw [if_pos hpattern, if_pos hpattern]
        rfl

theorem constructFromSums_eq : constructFromSums mass advection =
    Fault.ofRefusal (withLumpedMass mass advection mass.rowSums) := by
  rw [constructFromSums, CsrMatrix.sumLanes_eq]
  exact construct_eq mass advection mass.rowSums

variable {mass advection} in
theorem Breaks.length_ne {lumped : Array α} {k expected actual : Nat}
    (h : Breaks mass advection lumped k (.lumpedMassLength expected actual)) :
    lumped.size ≠ mass.numRows := by
  unfold Breaks at h
  split at h
  case h_6 => exact h.1
  all_goals simp at h

theorem fromMatrices_ne_lumpedMassLength (expected actual : Nat) :
    fromMatrices mass advection ≠ .error (.lumpedMassLength expected actual) := by
  intro h
  obtain ⟨k, -, hbreaks, -⟩ := (withLumpedMass_eq_error_iff _).1 h
  exact hbreaks.length_ne (by simp [CsrMatrix.rowSums])

/-- The construction accepts exactly what is acceptable, reports the first requirement that is
broken, and makes no read out of range. With the row sums in the place of the lumped mass it is the
same construction, and their number is never wrong. -/
theorem withLumpedMass_exact (lumped : Array α) :
    ((∃ g, withLumpedMass mass advection lumped = .ok g) ↔ Acceptable mass advection lumped) ∧
    (∀ e, withLumpedMass mass advection lumped = .error e ↔
      FirstBroken (Breaks mass advection lumped) 0 e) ∧
    construct mass advection lumped = Fault.ofRefusal (withLumpedMass mass advection lumped) ∧
    fromMatrices mass advection = withLumpedMass mass advection mass.rowSums ∧
    constructFromSums mass advection = Fault.ofRefusal (fromMatrices mass advection) ∧
    ∀ expected actual, fromMatrices mass advection ≠ .error (.lumpedMassLength expected actual) :=
  ⟨exists_withLumpedMass_eq_ok_iff, withLumpedMass_eq_error_iff, construct_eq mass advection lumped,
    rfl, constructFromSums_eq mass advection, fromMatrices_ne_lumpedMassLength mass advection⟩

end GraphOperator

end GraphTransport
