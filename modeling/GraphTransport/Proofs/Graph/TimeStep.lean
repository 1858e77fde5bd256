import Mathlib.Algebra.Order.BigOperators.Group.Finset
import Mathlib.Tactic.Ring
import Mathlib.Tactic.Linarith
import GraphTransport.Proofs.Scalar.Exact
import GraphTransport.Graph.TimeStep

namespace GraphTransport

theorem eq_of_forall_le_mem_iff {β : Type} [PartialOrder β] [NoMaxOrder β] {a b : Option β}
    (h : ∀ c, (∀ limit ∈ a, c ≤ limit) ↔ ∀ limit ∈ b, c ≤ limit) : a = b := by
  cases a with
  | none =>
    cases b with
    | none => rfl
    | some limit =>
      obtain ⟨c, hc⟩ := exists_gt limit
      exact absurd ((h c).1 (by simp) limit rfl) hc.not_ge
  | some limit =>
    cases b with
    | none =>
      obtain ⟨c, hc⟩ := exists_gt limit
      exact absurd ((h c).2 (by simp) limit rfl) hc.not_ge
    | some limit' =>
      have hlimit : limit = limit' := eq_of_forall_le_iff fun c ↦ by simpa using h c
      rw [hlimit]

namespace GraphOperator

section Rows

variable {α : Type} [Scalar α] (g : GraphOperator α)

def viscositySumAt (i : Nat) : α := (g.edgeList i).foldl (fun sum e ↦ sum + e.viscosity) 0

def rowTimeStepAt (i : Nat) : Option α :=
  if 0 < g.viscositySumAt i then some (g.lumpedAt i / ((1 + 1) * g.viscositySumAt i)) else none

def timeStepLimit : Option α :=
  match (List.range g.numNodes).filterMap g.rowTimeStepAt with
  | [] => none
  | dt :: rest => some (rest.foldl min dt)

variable {g}

theorem Accepted.rowTimeStep?_eq (hg : g.Accepted) {i : Nat} (hi : i < g.numNodes) :
    g.rowTimeStep? i = .ok (g.rowTimeStepAt i) := by
  rw [rowTimeStep?, hg.edges_eq hi, ok_bind, g.fetch_lumpedMass hi, rowTimeStepAt]
  by_cases hsum : 0 < g.viscositySumAt i
  · rw [if_pos hsum]
    exact if_pos hsum
  · rw [if_neg hsum]
    exact if_neg hsum

theorem Accepted.stableTimeStep?_eq (hg : g.Accepted) :
    g.stableTimeStep? = .ok g.timeStepLimit := by
  have hrows : (List.range g.numNodes).mapM g.rowTimeStep? =
      .ok ((List.range g.numNodes).map g.rowTimeStepAt) :=
    mapM_eq_ok_map fun i hi ↦ hg.rowTimeStep?_eq (List.mem_range.1 hi)
  rw [stableTimeStep?, hrows, ok_bind, List.filterMap_map, timeStepLimit]
  simp only [Function.id_comp]
  split
  · next h => rw [h]; rfl
  · next h => rw [h]; rfl

end Rows

variable {F : Type} [Field F] [LinearOrder F] {g : GraphOperator F} {i : Nat} {dt : F}

theorem viscositySumAt_eq_sum :
    g.viscositySumAt i = ∑ j ∈ Finset.range g.numNodes, (g.edge? i j).elim 0 Edge.viscosity := by
  rw [viscositySumAt, foldl_eq_add_sum (f := Edge.viscosity) (fun _ _ _ ↦ rfl), zero_add,
    g.sum_edgeList]

theorem le_timeStepLimit_iff_rows : (∀ s ∈ g.timeStepLimit, dt ≤ s) ↔
    ∀ i < g.numNodes, ∀ s ∈ g.rowTimeStepAt i, dt ≤ s := by
  have hrows : (∀ i < g.numNodes, ∀ s ∈ g.rowTimeStepAt i, dt ≤ s) ↔
      ∀ s ∈ (List.range g.numNodes).filterMap g.rowTimeStepAt, dt ≤ s := by
    simp only [List.mem_filterMap, List.mem_range, Option.mem_def]
    exact ⟨fun h s ⟨i, hi, hs⟩ ↦ h i hi s hs, fun h i hi s hs ↦ h s ⟨i, hi, hs⟩⟩
  rw [hrows, timeStepLimit]
  split
  · next h => simp [h]
  · next h => simp [h, le_foldl_min_iff]

variable [IsStrictOrderedRing F]

theorem viscositySumAt_nonneg : 0 ≤ g.viscositySumAt i := by
  rw [viscositySumAt_eq_sum]
  refine Finset.sum_nonneg fun j _ ↦ ?_
  cases g.edge? i j with
  | none => exact le_rfl
  | some e => exact e.viscosity_nonneg

theorem timeStepLimit_eq_of_rows {limit : Option F} (hn : 0 < g.numNodes)
    (hrows : ∀ i < g.numNodes, g.rowTimeStepAt i = limit) : g.timeStepLimit = limit := by
  refine eq_of_forall_le_mem_iff fun dt ↦ le_timeStepLimit_iff_rows.trans ⟨fun h ↦ ?_, ?_⟩
  · exact hrows 0 hn ▸ h 0 hn
  · intro h i hi
    rwa [hrows i hi]

/-- A step keeps to the restriction if no row sends out more than its lumped mass. -/
theorem Accepted.le_timeStepLimit_iff (hg : g.Accepted) : (∀ s ∈ g.timeStepLimit, dt ≤ s) ↔
    ∀ i < g.numNodes, 2 * dt * g.viscositySumAt i ≤ g.lumpedAt i := by
  rw [le_timeStepLimit_iff_rows]
  refine forall₂_congr fun i hi ↦ ?_
  have hmass : 0 < g.lumpedAt i := hg.lumped_getD_pos hi
  rw [rowTimeStepAt]
  split
  · next hsum =>
    have htwice : 0 < (1 + 1) * g.viscositySumAt i := mul_pos (by norm_num) hsum
    simp only [Option.mem_def, Option.some.injEq, forall_eq']
    rw [le_div_iff₀ htwice, show dt * ((1 + 1) * g.viscositySumAt i) =
      2 * dt * g.viscositySumAt i by ring]
  · next hsum =>
    have hzero : g.viscositySumAt i = 0 := le_antisymm (not_lt.1 hsum) viscositySumAt_nonneg
    simp [hzero, hmass.le]

def trianglePattern : SparsityPattern :=
  .ofLanes 3 [[1, 2], [0, 2], [0, 1]] (by decide) (by decide)

def triangleMass : CsrMatrix ℚ := ⟨trianglePattern, #[1, -2, 1, 3, -2, 3], rfl⟩

def triangleAdvection : CsrMatrix ℚ := ⟨trianglePattern, #[2, 0, -1, -3, 0, 1], rfl⟩

def triangle : GraphOperator ℚ :=
  ⟨triangleMass, triangleAdvection, #[1, 2, 3], #[2, 4, 0, 5, 1, 3]⟩

theorem withLumpedMass_triangle :
    withLumpedMass triangleMass triangleAdvection #[1, 2, 3] = .ok triangle :=
  withLumpedMass_eq_ok_iff.2 ⟨rfl, rfl, rfl, by decide, by decide, rfl, by decide +kernel,
    by decide +kernel, rfl, by decide +kernel⟩

theorem stableTimeStep?_triangle : triangle.stableTimeStep? = .ok (some (1 / 5)) := by
  decide +kernel

end GraphOperator

end GraphTransport
