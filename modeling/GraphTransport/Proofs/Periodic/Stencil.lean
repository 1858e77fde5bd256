import Mathlib.Algebra.BigOperators.Group.Finset.Piecewise
import GraphTransport.Proofs.Graph.Dense
import GraphTransport.Proofs.Periodic.Assembly

namespace GraphTransport

def nextNode (n i : Nat) : Nat := (i + 1) % n

def previousNode (n i : Nat) : Nat := (i + (n - 1)) % n

section Cycle

variable {n i j : Nat}

theorem nextNode_eq_ite (hi : i < n) : nextNode n i = if i + 1 = n then 0 else i + 1 := by
  rw [nextNode]
  split
  · next h => rw [h, Nat.mod_self]
  · next h => exact Nat.mod_eq_of_lt (by omega)

theorem previousNode_eq_ite (hi : i < n) : previousNode n i = if i = 0 then n - 1 else i - 1 := by
  rw [previousNode]
  split
  · next h => rw [h, Nat.zero_add, Nat.mod_eq_of_lt (by omega)]
  · next h =>
    have hwrapped : i + (n - 1) = i - 1 + n := by omega
    rw [hwrapped, Nat.add_mod_right, Nat.mod_eq_of_lt (by omega)]

theorem nextNode_lt (hi : i < n) : nextNode n i < n := Nat.mod_lt _ (Nat.zero_lt_of_lt hi)

theorem previousNode_lt (hi : i < n) : previousNode n i < n := Nat.mod_lt _ (Nat.zero_lt_of_lt hi)

theorem nextNode_eq_iff (hi : i < n) (hj : j < n) : nextNode n i = j ↔ i = previousNode n j := by
  rw [nextNode_eq_ite hi, previousNode_eq_ite hj]
  split <;> split <;> omega

theorem nextNode_ne_self (hn : 2 ≤ n) (hi : i < n) : nextNode n i ≠ i := by
  rw [nextNode_eq_ite hi]
  split <;> omega

theorem previousNode_ne_self (hn : 2 ≤ n) (hi : i < n) : previousNode n i ≠ i := by
  rw [previousNode_eq_ite hi]
  split <;> omega

theorem nextNode_ne_previousNode (hn : 3 ≤ n) (hi : i < n) : nextNode n i ≠ previousNode n i := by
  rw [nextNode_eq_ite hi, previousNode_eq_ite hi]
  split <;> split <;> omega

end Cycle

theorem Triplet.sum_valuesAt {M : Type} [AddCommMonoid M] (triplets : List (Triplet M))
    (i j : Nat) : (valuesAt triplets i j).sum =
      (triplets.map fun t ↦ if t.row = i ∧ t.column = j then t.value else 0).sum := by
  rw [valuesAt]
  induction triplets with
  | nil => rfl
  | cons t triplets ih =>
    by_cases h : t.row = i ∧ t.column = j
    · rw [List.filter_cons_of_pos (by simpa using h), List.map_cons, List.sum_cons, ih,
        List.map_cons, List.sum_cons, if_pos h]
    · rw [List.filter_cons_of_neg (by simpa using h), ih, List.map_cons, List.sum_cons, if_neg h,
        zero_add]

/-- What the cells of a cycle of `n` nodes add up to at `(i, j)`. Node `i` is the first node of
its own cell and the second node of the cell before. -/
def ElementMatrix.around {M : Type} [AddCommMonoid M] (element : ElementMatrix M) (n i j : Nat) :
    M :=
  (if j = i then element.entry false false else 0) +
    ((if j = nextNode n i then element.entry false true else 0) +
      ((if j = previousNode n i then element.entry true false else 0) +
        if j = i then element.entry true true else 0))

namespace PeriodicSegment

variable {i j : Nat}

theorem joins_iff {α : Type} {s : PeriodicSegment α} : s.Joins i j ↔ i < s.numCells ∧
    (j = i ∨ j = nextNode s.numCells i ∨ j = previousNode s.numCells i) := by
  constructor
  · intro h
    have hi : i < s.numCells := h.lt
    obtain ⟨e, he, a, b, hai, hbj⟩ := h
    refine ⟨hi, ?_⟩
    cases a with
    | false =>
      obtain rfl : e = i := hai
      cases b with
      | false => exact Or.inl hbj.symm
      | true => exact Or.inr (Or.inl hbj.symm)
    | true =>
      cases b with
      | false => exact Or.inr (Or.inr (hbj.symm.trans ((nextNode_eq_iff he hi).1 hai)))
      | true => exact Or.inl (hbj.symm.trans hai)
  · rintro ⟨hi, rfl | rfl | rfl⟩
    · exact joins_self hi
    · exact ⟨i, hi, false, true, rfl, rfl⟩
    · have hbefore := previousNode_lt hi
      exact ⟨_, hbefore, true, false, (nextNode_eq_iff hbefore hi).2 rfl, rfl⟩

section Entries

variable {M : Type} [AddCommMonoid M] {s : PeriodicSegment M} {element : ElementMatrix M}

theorem sum_cells {n e : Nat} (he : e < n) {p : Nat → Prop} [DecidablePred p] {q : Prop}
    [Decidable q] (h : ∀ k < n, p k ↔ k = e ∧ q) (v : M) :
    ∑ k ∈ Finset.range n, (if p k then v else 0) = if q then v else 0 := by
  rw [Finset.sum_eq_single_of_mem e (Finset.mem_range.2 he)]
  · simp only [h e he, true_and]
  · intro k hk hke
    rw [if_neg fun hp ↦ hke ((h k (Finset.mem_range.1 hk)).1 hp).1]

theorem sum_valuesAt_assemble (hi : i < s.numCells) (j : Nat) :
    (Triplet.valuesAt (s.assemble element) i j).sum = element.around s.numCells i j := by
  have hcells : (Triplet.valuesAt (s.assemble element) i j).sum =
      ∑ e ∈ Finset.range s.numCells, ((if e = i ∧ e = j then element.entry false false else 0) +
        ((if e = i ∧ nextNode s.numCells e = j then element.entry false true else 0) +
          ((if nextNode s.numCells e = i ∧ e = j then element.entry true false else 0) +
            if nextNode s.numCells e = i ∧ nextNode s.numCells e = j then element.entry true true
              else 0))) := by
    rw [Triplet.sum_valuesAt, assemble, List.map_flatMap, sum_flatMap_range]
    refine Finset.sum_congr rfl fun e _ ↦ ?_
    simp only [List.map_cons, List.map_nil, List.sum_cons, List.sum_nil, add_zero]
    rfl
  have hbefore {e : Nat} (he : e < s.numCells) :
      nextNode s.numCells e = i ↔ e = previousNode s.numCells i := nextNode_eq_iff he hi
  have hafter : nextNode s.numCells (previousNode s.numCells i) = i :=
    (hbefore (previousNode_lt hi)).2 rfl
  -- Each of the four contributions picks out one cell, its own or the one before.
  have hfirst : ∀ e < s.numCells, (e = i ∧ e = j) ↔ e = i ∧ j = i := by
    rintro e -
    exact and_congr_right fun he ↦ by rw [he, eq_comm]
  have hforward : ∀ e < s.numCells, (e = i ∧ nextNode s.numCells e = j) ↔
      e = i ∧ j = nextNode s.numCells i := by
    rintro e -
    exact and_congr_right fun he ↦ by rw [he, eq_comm]
  have hbackward : ∀ e < s.numCells, (nextNode s.numCells e = i ∧ e = j) ↔
      e = previousNode s.numCells i ∧ j = previousNode s.numCells i := by
    intro e he
    rw [hbefore he]
    exact and_congr_right fun he ↦ by rw [he, eq_comm]
  have hsecond : ∀ e < s.numCells, (nextNode s.numCells e = i ∧ nextNode s.numCells e = j) ↔
      e = previousNode s.numCells i ∧ j = i := by
    intro e he
    rw [hbefore he]
    exact and_congr_right fun he ↦ by rw [he, hafter, eq_comm]
  rw [hcells, Finset.sum_add_distrib, Finset.sum_add_distrib, Finset.sum_add_distrib,
    sum_cells hi hfirst, sum_cells hi hforward, sum_cells (previousNode_lt hi) hbackward,
    sum_cells (previousNode_lt hi) hsecond, ElementMatrix.around]

theorem Assembles.holds_iff_around {N : CsrMatrix M} (h : s.Assembles element N) {v : M} :
    N.Holds i j v ↔ s.Joins i j ∧ v = element.around s.numCells i j := by
  rw [h.holds_iff, addedUp_eq_some_iff]
  constructor
  · rintro ⟨hne, rfl⟩
    have hjoins : s.Joins i j :=
      exists_mem_valuesAt_assemble_iff.1 (List.exists_mem_of_ne_nil _ hne)
    exact ⟨hjoins, sum_valuesAt_assemble hjoins.lt j⟩
  · rintro ⟨hjoins, rfl⟩
    obtain ⟨v, hv⟩ := exists_mem_valuesAt_assemble_iff.2 hjoins
    exact ⟨List.ne_nil_of_mem hv, sum_valuesAt_assemble hjoins.lt j⟩

theorem Assembles.entry_eq_around {N : CsrMatrix M} (h : s.Assembles element N)
    (hi : i < s.numCells) : N.entry i j = element.around s.numCells i j := by
  by_cases hjoins : s.Joins i j
  · exact CsrMatrix.entry_eq_of_holds (h.holds_iff_around.2 ⟨hjoins, rfl⟩)
  · have hapart : ¬ (j = i ∨ j = nextNode s.numCells i ∨ j = previousNode s.numCells i) :=
      fun hj ↦ hjoins (joins_iff.2 ⟨hi, hj⟩)
    rw [CsrMatrix.entry_eq_zero (mt (h.stored_iff i j).1 hjoins), ElementMatrix.around]
    simp only [not_or] at hapart
    simp [hapart]

theorem sum_around_row {n : Nat} (hi : i < n) : ∑ j ∈ Finset.range n, element.around n i j =
    element.entry false false +
      (element.entry false true + (element.entry true false + element.entry true true)) := by
  simp only [ElementMatrix.around, Finset.sum_add_distrib, Finset.sum_ite_eq', Finset.mem_range, hi,
    nextNode_lt hi, previousNode_lt hi, if_true]

theorem sum_around_column {n : Nat} (hj : j < n) : ∑ i ∈ Finset.range n, element.around n i j =
    element.entry false false +
      (element.entry false true + (element.entry true false + element.entry true true)) := by
  have hself : ∀ i < n, j = i ↔ i = j ∧ True := fun i _ ↦ by rw [and_true, eq_comm]
  have hafter : ∀ i < n, j = nextNode n i ↔ i = previousNode n j ∧ True := fun i hi ↦ by
    rw [and_true, eq_comm, nextNode_eq_iff hi hj]
  have hbefore : ∀ i < n, j = previousNode n i ↔ i = nextNode n j ∧ True := fun i hi ↦ by
    rw [and_true, ← nextNode_eq_iff hj hi, eq_comm]
  simp only [ElementMatrix.around, Finset.sum_add_distrib, sum_cells hj hself,
    sum_cells (previousNode_lt hj) hafter, sum_cells (nextNode_lt hj) hbefore, if_true]

theorem Assembles.holds_iff_of_three (hn : 3 ≤ s.numCells) {N : CsrMatrix M}
    (h : s.Assembles element N) {v : M} : N.Holds i j v ↔ i < s.numCells ∧
      (j = i ∧ v = element.entry false false + element.entry true true ∨
        j = nextNode s.numCells i ∧ v = element.entry false true ∨
        j = previousNode s.numCells i ∧ v = element.entry true false) := by
  rw [h.holds_iff_around, joins_iff, and_assoc]
  refine and_congr_right fun hi ↦ ?_
  have hnext := nextNode_ne_self (Nat.le_of_succ_le hn) hi
  have hprevious := previousNode_ne_self (Nat.le_of_succ_le hn) hi
  have happart := nextNode_ne_previousNode hn hi
  rw [or_and_right, or_and_right, ElementMatrix.around]
  refine or_congr (and_congr_right ?_) (or_congr (and_congr_right ?_) (and_congr_right ?_))
  · rintro rfl
    simp [hnext.symm, hprevious.symm]
  · rintro rfl
    simp [hnext, happart]
  · rintro rfl
    simp [hprevious, happart.symm]

theorem Assembles.holds_iff_of_two (hn : s.numCells = 2) {N : CsrMatrix M}
    (h : s.Assembles element N) {v : M} : N.Holds i j v ↔ i < 2 ∧ j < 2 ∧
      v = if j = i then element.entry false false + element.entry true true
        else element.entry false true + element.entry true false := by
  rw [h.holds_iff_around, joins_iff, hn, and_assoc]
  refine and_congr_right fun hi ↦ ?_
  have hnext : nextNode 2 i = 1 - i := by
    rw [nextNode_eq_ite hi]
    split <;> omega
  have hprevious : previousNode 2 i = 1 - i := by
    rw [previousNode_eq_ite hi]
    split <;> omega
  have hnode : (j = i ∨ j = 1 - i) ↔ j < 2 := by omega
  rw [ElementMatrix.around, hnext, hprevious, or_self, hnode]
  refine and_congr_right fun hj ↦ ?_
  by_cases hji : j = i
  · have hapart : i ≠ 1 - i := by omega
    simp [hji, hapart]
  · have hother : j = 1 - i := (hnode.2 hj).resolve_left hji
    rw [if_neg hji, if_neg hji, if_neg hji, if_pos hother, if_pos hother, zero_add, add_zero]

end Entries

end PeriodicSegment

end GraphTransport
