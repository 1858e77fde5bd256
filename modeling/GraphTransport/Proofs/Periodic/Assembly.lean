import Mathlib.Algebra.Order.BigOperators.Group.List
import Mathlib.Tactic.NormNum
import Mathlib.Tactic.Positivity
import GraphTransport.Periodic.Assembly
import GraphTransport.Proofs.Graph.Lumping
import GraphTransport.Proofs.Sparse.Triplets

namespace GraphTransport

namespace Triplet

variable {α : Type} {triplets : List (Triplet α)} {i j : Nat}

def transpose (e : Triplet α) : Triplet α := ⟨e.column, e.row, e.value⟩

theorem valuesAt_transpose (triplets : List (Triplet α)) (i j : Nat) :
    valuesAt (triplets.map transpose) i j = valuesAt triplets j i := by
  simp only [valuesAt, List.filter_map, List.map_map]
  congr 1
  refine List.filter_congr fun e _ ↦ ?_
  simp only [Function.comp_apply, transpose, and_comm]

end Triplet

namespace PeriodicSegment

section Positions

variable {α : Type} (s : PeriodicSegment α)

def cellNode (e : Nat) (second : Bool) : Nat := if second then (e + 1) % s.numNodes else e

/-- Some cell has the nodes `i` and `j`, in this order or in the other, or one node twice. -/
def Joins (i j : Nat) : Prop := ∃ e < s.numCells, ∃ a b, s.cellNode e a = i ∧ s.cellNode e b = j

variable {s} {i j : Nat}

theorem Joins.symm (h : s.Joins i j) : s.Joins j i := by
  obtain ⟨e, he, a, b, hi, hj⟩ := h
  exact ⟨e, he, b, a, hj, hi⟩

theorem Joins.lt (h : s.Joins i j) : i < s.numNodes := by
  obtain ⟨e, he, a, b, rfl, -⟩ := h
  cases a with
  | false => exact he
  | true => exact Nat.mod_lt _ (Nat.zero_lt_of_lt he)

theorem joins_self (hi : i < s.numNodes) : s.Joins i i := ⟨i, hi, false, false, rfl, rfl⟩

variable {element : ElementMatrix α}

theorem mem_assemble_iff {t : Triplet α} : t ∈ s.assemble element ↔
    ∃ e < s.numCells, ∃ a b, t = ⟨s.cellNode e a, s.cellNode e b, element.entry a b⟩ := by
  simp [assemble, cellNode, or_assoc]

theorem transpose_assemble_perm (h : ∀ a b, element.entry a b = element.entry b a) :
    ((s.assemble element).map Triplet.transpose).Perm (s.assemble element) := by
  rw [assemble, List.map_flatMap]
  refine List.Perm.flatMap_left _ fun e _ ↦ ?_
  simp only [List.map_cons, List.map_nil, Triplet.transpose, h true false]
  exact (List.Perm.swap _ _ _).cons _

theorem valuesAt_assemble_perm (h : ∀ a b, element.entry a b = element.entry b a) (i j : Nat) :
    (Triplet.valuesAt (s.assemble element) i j).Perm
      (Triplet.valuesAt (s.assemble element) j i) := by
  rw [← Triplet.valuesAt_transpose]
  exact ((transpose_assemble_perm h).filter _).map _

theorem exists_mem_valuesAt_assemble_iff :
    (∃ v, v ∈ Triplet.valuesAt (s.assemble element) i j) ↔ s.Joins i j := by
  simp only [Triplet.mem_valuesAt_iff, mem_assemble_iff, Triplet.mk.injEq]
  constructor
  · rintro ⟨v, e, he, a, b, hi, hj, -⟩
    exact ⟨e, he, a, b, hi.symm, hj.symm⟩
  · rintro ⟨e, he, a, b, hi, hj⟩
    exact ⟨_, e, he, a, b, hi.symm, hj.symm, rfl⟩

/-- The matrix holds what the cells add up to, each of them with the given element matrix. -/
structure Assembles [Add α] (s : PeriodicSegment α) (element : ElementMatrix α)
    (M : CsrMatrix α) : Prop where
  numRows_eq : M.numRows = s.numNodes
  numCols_eq : M.numCols = s.numNodes
  holds_iff : ∀ i j v,
    M.Holds i j v ↔ addedUp (Triplet.valuesAt (s.assemble element) i j) = some v

theorem exists_assembles [Add α] (s : PeriodicSegment α) (element : ElementMatrix α) :
    ∃ M, CsrMatrix.ofTriplets s.numNodes s.numNodes (s.assemble element) = .ok M ∧
      s.Assembles element M := by
  have hrange : ∀ t ∈ s.assemble element, t.row < s.numNodes ∧ t.column < s.numNodes := by
    intro t ht
    obtain ⟨e, he, a, b, rfl⟩ := mem_assemble_iff.1 ht
    have hjoins : s.Joins (s.cellNode e a) (s.cellNode e b) := ⟨e, he, a, b, rfl, rfl⟩
    exact ⟨hjoins.lt, hjoins.symm.lt⟩
  obtain ⟨M, hM, hrows, hcols, hholds⟩ := CsrMatrix.exists_ofTriplets hrange
  exact ⟨M, hM, hrows, hcols, hholds⟩

namespace Assembles

theorem stored_iff [Add α] {M : CsrMatrix α} (h : s.Assembles element M) (i j : Nat) :
    M.pattern.Stored i j ↔ s.Joins i j := by
  simp only [CsrMatrix.stored_iff_exists_holds, h.holds_iff, exists_addedUp_iff,
    exists_mem_valuesAt_assemble_iff]

theorem holds_comm {A : Type} [AddCommMonoid A] {s : PeriodicSegment A}
    {element : ElementMatrix A} (hcomm : ∀ a b, element.entry a b = element.entry b a)
    {M : CsrMatrix A} (h : s.Assembles element M) {v : A} (hv : M.Holds i j v) :
    M.Holds j i v := by
  have hperm := valuesAt_assemble_perm (s := s) hcomm j i
  obtain ⟨hne, rfl⟩ := addedUp_eq_some_iff.1 ((h.holds_iff i j v).1 hv)
  refine (h.holds_iff j i _).2 (addedUp_eq_some_iff.2 ⟨?_, hperm.sum_eq⟩)
  intro hnil
  rw [hnil] at hperm
  exact hne hperm.nil_eq.symm

end Assembles

end Positions

theorem create_eq_ok_iff {α : Type} [Scalar α] {s : PeriodicSegment α} {numCells : Nat}
    {length : α} : create numCells length = .ok s ↔
      2 ≤ numCells ∧ 0 < length ∧ ⟨numCells, length⟩ = s := by
  rw [create]
  by_cases hcells : 2 ≤ numCells
  · by_cases hlength : 0 < length
    · simp only [hcells, hlength, not_true_eq_false, if_false, true_and]
      exact ⟨Except.ok.inj, congrArg Except.ok⟩
    · simp only [hcells, hlength, not_true_eq_false, not_false_eq_true, if_false, if_true]
      exact iff_of_false (fun h ↦ nomatch h) fun h ↦ h.2.1
  · simp only [hcells, not_false_eq_true, if_true]
    exact iff_of_false (fun h ↦ nomatch h) fun h ↦ h.1

section Exact

variable {F : Type} [Field F] [LinearOrder F] [IsStrictOrderedRing F] {s : PeriodicSegment F}

theorem Assembles.pos_of_holds {element : ElementMatrix F} (hpos : ∀ a b, 0 < element.entry a b)
    {M : CsrMatrix F} (h : s.Assembles element M) {i j : Nat} {v : F} (hv : M.Holds i j v) :
    0 < v := by
  obtain ⟨hne, rfl⟩ := addedUp_eq_some_iff.1 ((h.holds_iff i j v).1 hv)
  apply List.sum_pos
  · intro w hw
    obtain ⟨e, -, a, b, ht⟩ := mem_assemble_iff.1 (Triplet.mem_valuesAt_iff.1 hw)
    cases ht
    exact hpos a b
  · exact hne

theorem elementMass_pos (hcells : 0 < s.numCells) (hlength : 0 < s.length) (a b : Bool) :
    0 < s.elementMass.entry a b := by
  have hcells : (0 : F) < s.numCells := Nat.cast_pos.2 hcells
  have hsize : 0 < s.cellSize := div_pos hlength hcells
  have hfactor : 0 < s.cellSize / 6.0 := div_pos hsize (by norm_num)
  refine mul_pos ?_ hfactor
  split <;> norm_num

omit [IsStrictOrderedRing F] in
theorem elementMass_comm (a b : Bool) : s.elementMass.entry a b = s.elementMass.entry b a := by
  simp only [elementMass, eq_comm]

theorem lumpable_of_assembles (hcells : 0 < s.numCells) (hlength : 0 < s.length)
    {element : ElementMatrix F} {mass convection : CsrMatrix F}
    (hmass : s.Assembles s.elementMass mass) (hconvection : s.Assembles element convection) :
    GraphOperator.Lumpable s.numNodes mass convection where
  mass_numRows := hmass.numRows_eq
  mass_numCols := hmass.numCols_eq
  advection_numRows := hconvection.numRows_eq
  advection_numCols := hconvection.numCols_eq
  stored_iff i j := (hmass.stored_iff i j).trans (hconvection.stored_iff i j).symm
  holds_comm _ _ _ := hmass.holds_comm elementMass_comm
  nonneg _ _ _ hm := (hmass.pos_of_holds (elementMass_pos hcells hlength) hm).le
  exists_pos i hi := by
    obtain ⟨m, hm⟩ :=
      CsrMatrix.stored_iff_exists_holds.1 ((hmass.stored_iff i i).2 (joins_self hi))
    exact ⟨i, m, hm, hmass.pos_of_holds (elementMass_pos hcells hlength) hm⟩

structure IsAssembled (s : PeriodicSegment F) (velocity : F) (g : GraphOperator F) : Prop where
  accepted : g.Accepted
  mass : s.Assembles s.elementMass g.mass
  advection : s.Assembles (elementConvection velocity) g.advection
  lumpedMass_eq : g.lumpedMass = g.mass.rowSums

omit [IsStrictOrderedRing F] in
theorem IsAssembled.numNodes_eq {velocity : F} {g : GraphOperator F}
    (h : s.IsAssembled velocity g) : g.numNodes = s.numCells := by
  rw [← h.accepted.numRows_eq]
  exact h.mass.numRows_eq

theorem exists_isAssembled (hcells : 0 < s.numCells) (hlength : 0 < s.length) (velocity : F) :
    ∃ g, s.advectionOperator velocity = .ok g ∧ s.IsAssembled velocity g := by
  obtain ⟨mass, hmass, hassembled⟩ := exists_assembles s s.elementMass
  obtain ⟨convection, hconvection, hassembled'⟩ := exists_assembles s (elementConvection velocity)
  obtain ⟨g, hg, rfl, rfl, hlumped, haccepted⟩ :=
    (lumpable_of_assembles hcells hlength hassembled hassembled').exists_fromMatrices
  refine ⟨g, ?_, haccepted, hassembled, hassembled', hlumped⟩
  rw [advectionOperator]
  simp only [hmass, hconvection, ok_bind, hg]
  rfl

theorem exists_advectionOperator (hcells : 0 < s.numCells) (hlength : 0 < s.length)
    (velocity : F) : ∃ g, s.advectionOperator velocity = .ok g ∧ g.Accepted ∧
      g.numNodes = s.numCells := by
  obtain ⟨g, hg, h⟩ := exists_isAssembled hcells hlength velocity
  exact ⟨g, hg, h.accepted, h.numNodes_eq⟩

end Exact

end PeriodicSegment

end GraphTransport
