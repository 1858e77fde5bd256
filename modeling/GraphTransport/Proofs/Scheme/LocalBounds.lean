import Mathlib.Algebra.BigOperators.Ring.Finset
import GraphTransport.Proofs.Graph.TimeStep
import GraphTransport.Proofs.Scheme.Fluxes

namespace GraphTransport

variable {F : Type} [Field F] [LinearOrder F] [IsStrictOrderedRing F]

theorem add_mul_div_le {x v dt sum mass flux : F} (hmass : 0 < mass) (hdt : 0 ≤ dt)
    (hrow : 2 * dt * sum ≤ mass) (hv : x ≤ v) (hflux : flux ≤ 2 * sum * (v - x)) :
    x + dt * (flux / mass) ≤ v := by
  have hstep : dt * flux ≤ dt * (2 * sum * (v - x)) := mul_le_mul_of_nonneg_left hflux hdt
  have hwhole : 2 * dt * sum * (v - x) ≤ mass * (v - x) :=
    mul_le_mul_of_nonneg_right hrow (sub_nonneg.2 hv)
  have hpart : dt * (flux / mass) ≤ v - x := by
    rw [← mul_div_assoc, div_le_iff₀ hmass]
    linarith
  linarith

theorem le_add_mul_div {x v dt sum mass flux : F} (hmass : 0 < mass) (hdt : 0 ≤ dt)
    (hrow : 2 * dt * sum ≤ mass) (hv : v ≤ x) (hflux : 2 * sum * (v - x) ≤ flux) :
    v ≤ x + dt * (flux / mass) := by
  have hflux' : -flux ≤ 2 * sum * (-v - -x) := by linarith
  have h := add_mul_div_le hmass hdt hrow (neg_le_neg hv) hflux'
  rw [neg_div, mul_neg, ← neg_add] at h
  exact neg_le_neg_iff.1 h

omit [IsStrictOrderedRing F] in
theorem Edge.lowOrderFlux_eq (e : Edge F) (here there : Endpoint F) :
    e.lowOrderFlux here.value there.value =
      e.barHere here there - 2 * e.viscosity * here.value := by
  rw [lowOrderFlux, barHere]
  ring

namespace Scheme

variable {scheme : Scheme} {here there : Endpoint F}

theorem le_flux (hscheme : scheme.keepsBounds) (e : Edge F) (hh : here.Encloses there)
    (ht : there.Encloses here) : 2 * e.viscosity * (here.bounds.lower - here.value) ≤
      e.lowOrderFlux here.value there.value + scheme.correction e here there := by
  rw [e.lowOrderFlux_eq]
  cases scheme with
  | lowOrder =>
    have hbar : 2 * e.viscosity * here.bounds.lower ≤ e.barHere here there :=
      le_barState e.abs_forward_le hh.1.1 hh.2.1
    simp only [correction]
    linarith
  | highOrder => exact absurd hscheme (by decide)
  | mcl =>
    have hbar := e.le_barHere_add_limitedFlux hh ht
    simp only [correction]
    linarith

theorem flux_le (hscheme : scheme.keepsBounds) (e : Edge F) (hh : here.Encloses there)
    (ht : there.Encloses here) : e.lowOrderFlux here.value there.value +
      scheme.correction e here there ≤ 2 * e.viscosity * (here.bounds.upper - here.value) := by
  rw [e.lowOrderFlux_eq]
  cases scheme with
  | lowOrder =>
    have hbar : e.barHere here there ≤ 2 * e.viscosity * here.bounds.upper :=
      barState_le e.abs_forward_le hh.1.2 hh.2.2
    simp only [correction]
    linarith
  | highOrder => exact absurd hscheme (by decide)
  | mcl =>
    have hbar := e.barHere_add_limitedFlux_le hh ht
    simp only [correction]
    linarith

end Scheme

namespace GraphOperator

variable {g : GraphOperator F} {dt : F} {i : Nat}

theorem Accepted.contains_euler_step (hg : g.Accepted) (scheme : Scheme)
    (hscheme : scheme.keepsBounds) (hdt : 0 ≤ dt) (hi : i < g.numNodes)
    (hrow : 2 * dt * g.viscositySumAt i ≤ g.lumpedAt i)
    (u z : Nat → F) : (g.boundsAt u i).Contains (u i + dt * scheme.rateAt g u z i) := by
  have hmass : 0 < g.lumpedAt i := hg.lumped_getD_pos hi
  have hself := contains_self (g := g) (i := i) u
  have hsum (v : F) : 2 * g.viscositySumAt i * (v - u i) =
      ∑ j ∈ Finset.range g.numNodes, (g.edge? i j).elim 0 fun e ↦
        2 * e.viscosity * (v - u i) := by
    rw [viscositySumAt_eq_sum, Finset.mul_sum, Finset.sum_mul]
    refine Finset.sum_congr rfl fun j _ ↦ ?_
    cases g.edge? i j with
    | none => simp
    | some e => rfl
  rw [Scheme.rateAt_eq_sum]
  -- A flux takes at most twice its viscosity times the distance to the bound, and a step within the
  -- restriction adds up to less than the whole distance.
  constructor
  · refine le_add_mul_div hmass hdt hrow hself.1 ?_
    rw [hsum]
    refine Finset.sum_le_sum fun j _ ↦ ?_
    cases h : g.edge? i j with
    | none => exact le_rfl
    | some e =>
      exact Scheme.le_flux hscheme e (hg.encloses h u z) (hg.encloses (hg.edge?_mirror h) u z)
  · refine add_mul_div_le hmass hdt hrow hself.2 ?_
    rw [hsum]
    refine Finset.sum_le_sum fun j _ ↦ ?_
    cases h : g.edge? i j with
    | none => exact le_rfl
    | some e =>
      exact Scheme.flux_le hscheme e (hg.encloses h u z) (hg.encloses (hg.edge?_mirror h) u z)

/-- Neither the low-order nor the limited scheme leaves the local bounds of the state in an explicit
Euler step that keeps to the step restriction, whatever the low-order rates `z` hold. -/
theorem contains_euler_step_of_le_stableTimeStep {mass advection : CsrMatrix F}
    {lumped : Array F} {g : GraphOperator F}
    (hg : withLumpedMass mass advection lumped = .ok g) :
    ∃ limit, g.stableTimeStep? = .ok limit ∧
      ∀ x z : Array F, x.size = g.numNodes → z.size = g.numNodes →
      ∀ dt, 0 ≤ dt → (∀ s ∈ limit, dt ≤ s) → ∀ i < g.numNodes,
      ∃ bounds low limited, g.localBounds i x = .ok bounds ∧
        g.lowOrderRate x i = .ok low ∧ g.mclRate x z i = .ok limited ∧
        bounds.Contains (valueAt x i + dt * low) ∧
        bounds.Contains (valueAt x i + dt * limited) := by
  have hg := accepted_of_withLumpedMass hg
  refine ⟨g.timeStepLimit, hg.stableTimeStep?_eq, ?_⟩
  intro x z hx hz dt hdt hlimit i hi
  have hrow := hg.le_timeStepLimit_iff.1 hlimit i hi
  exact ⟨_, _, _, hg.localBounds_eq hi hx.ge, hg.lowOrderRate_eq hi hx.ge,
    hg.mclRate_eq hi hx.ge hz.ge,
    hg.contains_euler_step .lowOrder rfl hdt hi hrow (valueAt x) (valueAt z),
    hg.contains_euler_step .mcl rfl hdt hi hrow (valueAt x) (valueAt z)⟩

theorem contains_euler_step_of_le_stableTimeStep_triangle :
    ∃ bounds low limited, triangle.localBounds 1 #[0, 5, -1] = .ok bounds ∧
      triangle.lowOrderRate #[0, 5, -1] 1 = .ok low ∧
      triangle.mclRate #[0, 5, -1] #[7, -3, 2] 1 = .ok limited ∧
      bounds.Contains (5 + 1 / 5 * low) ∧ bounds.Contains (5 + 1 / 5 * limited) := by
  obtain ⟨limit, hlimit, h⟩ := contains_euler_step_of_le_stableTimeStep withLumpedMass_triangle
  obtain rfl : some (1 / 5) = limit := Except.ok.inj (stableTimeStep?_triangle.symm.trans hlimit)
  exact h #[0, 5, -1] #[7, -3, 2] rfl rfl (1 / 5) (by decide +kernel)
    (by simp) 1 (by decide)

end GraphOperator

end GraphTransport
