import Mathlib.Algebra.BigOperators.Field
import Mathlib.Analysis.Convex.Jensen
import GraphTransport.Proofs.Graph.TimeStep
import GraphTransport.Proofs.Scheme.Fluxes

namespace GraphTransport.GraphOperator

variable {F : Type} [Field F] [LinearOrder F]

/-- The coefficient with which node `j` draws the value of node `i` towards its own. -/
def pull (g : GraphOperator F) (i j : Nat) : F :=
  (g.edge? i j).elim 0 fun e ↦ e.viscosity - e.forward

def share (g : GraphOperator F) (dt : F) (i j : Nat) : F :=
  (if j = i then 1 - dt * (∑ k ∈ Finset.range g.numNodes, g.pull i k) / g.lumpedAt i else 0) +
    dt * g.pull i j / g.lumpedAt i

variable {g : GraphOperator F} {dt : F} {i : Nat}

theorem lowOrderAt_eq_sum (u : Nat → F) : g.lowOrderAt u i =
    (∑ j ∈ Finset.range g.numNodes, g.pull i j * (u j - u i)) / g.lumpedAt i := by
  refine (Scheme.lowOrder.rateAt_eq_sum g u u i).trans (congrArg (· / _) ?_)
  refine Finset.sum_congr rfl fun j _ ↦ ?_
  rw [pull]
  cases g.edge? i j with
  | none => exact (zero_mul _).symm
  | some e => exact add_zero _

theorem sum_share_mul (hi : i < g.numNodes) (u : Nat → F) :
    ∑ j ∈ Finset.range g.numNodes, g.share dt i j * u j = u i + dt * g.lowOrderAt u i := by
  have hself : ∑ j ∈ Finset.range g.numNodes, (if j = i then
      1 - dt * (∑ k ∈ Finset.range g.numNodes, g.pull i k) / g.lumpedAt i else 0) * u j =
      (1 - dt * (∑ k ∈ Finset.range g.numNodes, g.pull i k) / g.lumpedAt i) * u i := by
    rw [Finset.sum_eq_single_of_mem i (Finset.mem_range.2 hi), if_pos rfl]
    intro j _ hj
    rw [if_neg hj, zero_mul]
  have hothers : ∑ j ∈ Finset.range g.numNodes, dt * g.pull i j / g.lumpedAt i * u j =
      dt * (∑ j ∈ Finset.range g.numNodes, g.pull i j * u j) / g.lumpedAt i := by
    rw [Finset.mul_sum, Finset.sum_div]
    exact Finset.sum_congr rfl fun j _ ↦ by ring
  have hrate : ∑ j ∈ Finset.range g.numNodes, g.pull i j * (u j - u i) =
      ∑ j ∈ Finset.range g.numNodes, g.pull i j * u j -
        (∑ k ∈ Finset.range g.numNodes, g.pull i k) * u i := by
    rw [Finset.sum_mul, ← Finset.sum_sub_distrib]
    exact Finset.sum_congr rfl fun j _ ↦ mul_sub _ _ _
  simp only [share, add_mul, Finset.sum_add_distrib]
  rw [hself, hothers, lowOrderAt_eq_sum, hrate]
  ring

theorem sum_share (hi : i < g.numNodes) :
    ∑ j ∈ Finset.range g.numNodes, g.share dt i j = 1 := by
  have hsum : ∑ j ∈ Finset.range g.numNodes, g.share dt i j * 1 =
      1 + dt * g.lowOrderAt (fun _ ↦ 1) i := sum_share_mul hi fun _ ↦ 1
  rw [lowOrderAt_eq_sum] at hsum
  simpa using hsum

variable [IsStrictOrderedRing F]

theorem pull_nonneg (i j : Nat) : 0 ≤ g.pull i j := by
  rw [pull]
  cases g.edge? i j with
  | none => exact le_rfl
  | some e => exact sub_nonneg.2 ((le_abs_self _).trans e.abs_forward_le)

theorem sum_pull_le (i : Nat) :
    ∑ j ∈ Finset.range g.numNodes, g.pull i j ≤ 2 * g.viscositySumAt i := by
  rw [viscositySumAt_eq_sum, Finset.mul_sum]
  refine Finset.sum_le_sum fun j _ ↦ ?_
  rw [pull]
  cases g.edge? i j with
  | none => simp
  | some e =>
    have hforward : -e.forward ≤ e.viscosity := (neg_le_abs _).trans e.abs_forward_le
    simp only [Option.elim_some]
    linarith

theorem Accepted.share_nonneg (hg : g.Accepted) (hdt : 0 ≤ dt) (hi : i < g.numNodes)
    (hrow : 2 * dt * g.viscositySumAt i ≤ g.lumpedAt i) (j : Nat) : 0 ≤ g.share dt i j := by
  have hmass : 0 < g.lumpedAt i := hg.lumped_getD_pos hi
  have hother : 0 ≤ dt * g.pull i j / g.lumpedAt i :=
    div_nonneg (mul_nonneg hdt (pull_nonneg i j)) hmass.le
  have hself : dt * (∑ k ∈ Finset.range g.numNodes, g.pull i k) / g.lumpedAt i ≤ 1 := by
    rw [div_le_one hmass]
    have hpull := mul_le_mul_of_nonneg_left (sum_pull_le (g := g) i) hdt
    linarith
  rw [share]
  split
  · exact add_nonneg (sub_nonneg.2 hself) hother
  · rwa [zero_add]

theorem Accepted.lowOrder_euler_mono (hg : g.Accepted) (hdt : 0 ≤ dt) (hi : i < g.numNodes)
    (hrow : 2 * dt * g.viscositySumAt i ≤ g.lumpedAt i) {u u' : Nat → F}
    (h : ∀ j < g.numNodes, u j ≤ u' j) :
    u i + dt * g.lowOrderAt u i ≤ u' i + dt * g.lowOrderAt u' i := by
  rw [← sum_share_mul hi, ← sum_share_mul hi]
  refine Finset.sum_le_sum fun j hj ↦ ?_
  exact mul_le_mul_of_nonneg_left (h j (Finset.mem_range.1 hj)) (hg.share_nonneg hdt hi hrow j)

theorem Accepted.convex_lowOrder_euler_le (hg : g.Accepted) (hdt : 0 ≤ dt) (hi : i < g.numNodes)
    (hrow : 2 * dt * g.viscositySumAt i ≤ g.lumpedAt i) {η : F → F}
    (hη : ConvexOn F Set.univ η) (u : Nat → F) :
    η (u i + dt * g.lowOrderAt u i) ≤ η (u i) + dt * g.lowOrderAt (fun j ↦ η (u j)) i := by
  rw [← sum_share_mul hi, ← sum_share_mul hi (fun j ↦ η (u j))]
  have hjensen := hη.map_sum_le (t := Finset.range g.numNodes) (w := g.share dt i) (p := u)
    (fun j _ ↦ hg.share_nonneg hdt hi hrow j) (sum_share hi) (fun j _ ↦ Set.mem_univ (u j))
  simpa only [smul_eq_mul] using hjensen

end GraphTransport.GraphOperator
