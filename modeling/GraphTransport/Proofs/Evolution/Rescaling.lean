import Mathlib.Algebra.BigOperators.Ring.Finset
import GraphTransport.Proofs.Evolution.Rates
import GraphTransport.Proofs.Scheme.Projection

namespace GraphTransport

variable {F : Type} [Field F] [LinearOrder F]

section Units

variable (c s : F)

def Bounds.rescale (bounds : Bounds F) : Bounds F :=
  if 0 ≤ c then ⟨c * bounds.lower + s, c * bounds.upper + s⟩
  else ⟨c * bounds.upper + s, c * bounds.lower + s⟩

def Endpoint.rescale (p : Endpoint F) : Endpoint F :=
  ⟨c * p.value + s, c * p.rate, p.bounds.rescale c s⟩

end Units

namespace GraphOperator

variable {g : GraphOperator F} {u : Nat → F} {i : Nat}

theorem boundsAt_rescale [IsStrictOrderedRing F] (c s : F) :
    g.boundsAt (fun j ↦ c * u j + s) i = (g.boundsAt u i).rescale c s := by
  have hwiden (bounds : Bounds F) (v : F) :
      (⟨min (bounds.rescale c s).lower (c * v + s), max (bounds.rescale c s).upper (c * v + s)⟩ :
        Bounds F) = Bounds.rescale c s ⟨min bounds.lower v, max bounds.upper v⟩ := by
    unfold Bounds.rescale
    split
    · next hc =>
      have hmono : Monotone fun v ↦ c * v + s := by
        intro a b hab
        exact add_le_add_left (mul_le_mul_of_nonneg_left hab hc) s
      simp only [hmono.map_min, hmono.map_max]
    · next hc =>
      have hanti : Antitone fun v ↦ c * v + s := by
        intro a b hab
        exact add_le_add_left (mul_le_mul_of_nonpos_left hab (not_le.1 hc).le) s
      simp only [hanti.map_min, hanti.map_max]
  have hstart : (⟨c * u i + s, c * u i + s⟩ : Bounds F) = Bounds.rescale c s ⟨u i, u i⟩ := by
    simp [Bounds.rescale]
  unfold boundsAt
  rw [hstart]
  apply List.foldl_hom
  intro bounds j
  exact hwiden bounds (u j)

theorem endAt_rescale [IsStrictOrderedRing F] (c s : F) (z : Nat → F) :
    g.endAt (fun j ↦ c * u j + s) (fun j ↦ c * z j) i = (g.endAt u z i).rescale c s := by
  rw [endAt, boundsAt_rescale]
  rfl

end GraphOperator

namespace Edge

variable (e : Edge F) {here there : Endpoint F} (c s : F)

theorem lowOrderFlux_rescale (a b : F) :
    e.lowOrderFlux (c * a + s) (c * b + s) = c * e.lowOrderFlux a b := by
  unfold lowOrderFlux
  ring

theorem targetFlux_rescale :
    e.targetFlux (here.rescale c s) (there.rescale c s) = c * e.targetFlux here there := by
  simp only [targetFlux, Endpoint.rescale]
  ring

theorem barHere_rescale : e.barHere (here.rescale c s) (there.rescale c s) =
    c * e.barHere here there + 2 * e.viscosity * s := by
  simp only [barHere, Endpoint.rescale]
  ring

theorem barThere_rescale : e.barThere (here.rescale c s) (there.rescale c s) =
    c * e.barThere here there + 2 * e.viscosity * s := by
  simp only [barThere, Endpoint.rescale]
  ring

end Edge

variable [IsStrictOrderedRing F]

theorem clip_mul_of_nonneg {c f lo hi : F} (hc : 0 ≤ c) (hlo : lo ≤ 0) (hhi : 0 ≤ hi) :
    clip (c * f) (c * lo) (c * hi) = c * clip f lo hi := by
  have hlo' : c * lo ≤ 0 := mul_nonpos_of_nonneg_of_nonpos hc hlo
  rw [clip_eq_max_min hlo' (mul_nonneg hc hhi), clip_eq_max_min hlo hhi, mul_max_of_nonneg _ _ hc,
    mul_min_of_nonneg _ _ hc]

theorem clip_mul_of_nonpos {c f lo hi : F} (hc : c ≤ 0) (hlo : lo ≤ 0) (hhi : 0 ≤ hi) :
    clip (c * f) (c * hi) (c * lo) = c * clip f lo hi := by
  have h := clip_mul_of_nonneg (f := -f) (neg_nonneg.2 hc) (neg_nonpos.2 hhi) (neg_nonneg.2 hlo)
  rw [neg_mul_neg, neg_mul_neg, neg_mul_neg] at h
  rw [h, clip_neg_eq_neg_iff.2 fun _ ↦ ⟨hlo, hhi⟩, neg_mul_neg]

namespace Edge

variable (e : Edge F) {here there : Endpoint F} (c s : F)

theorem limitedFlux_rescale (hh : here.Encloses there) (ht : there.Encloses here) :
    e.limitedFlux (here.rescale c s) (there.rescale c s) = c * e.limitedFlux here there := by
  have hlo := e.lowerClip_nonpos hh ht
  have hhi := e.upperClip_nonneg hh ht
  -- The shift adds the same to the bar states and to the bounds that they are compared with.
  have habove (w v : F) : 2 * e.viscosity * (c * v + s) - (c * w + 2 * e.viscosity * s) =
      c * (2 * e.viscosity * v - w) := by ring
  have hbelow (w v : F) : c * w + 2 * e.viscosity * s - 2 * e.viscosity * (c * v + s) =
      c * (w - 2 * e.viscosity * v) := by ring
  rw [limitedFlux_eq_clip, limitedFlux_eq_clip, targetFlux_rescale]
  rcases le_or_gt 0 c with hc | hc
  · have hlower : e.lowerClip (here.rescale c s) (there.rescale c s) =
        c * e.lowerClip here there := by
      rw [lowerClip, lowerClip, barHere_rescale, barThere_rescale, mul_max_of_nonneg _ _ hc]
      simp only [Endpoint.rescale, Bounds.rescale, if_pos hc, habove, hbelow]
    have hupper : e.upperClip (here.rescale c s) (there.rescale c s) =
        c * e.upperClip here there := by
      rw [upperClip, upperClip, barHere_rescale, barThere_rescale, mul_min_of_nonneg _ _ hc]
      simp only [Endpoint.rescale, Bounds.rescale, if_pos hc, habove, hbelow]
    rw [hlower, hupper, clip_mul_of_nonneg hc hlo hhi]
  · have hlower : e.lowerClip (here.rescale c s) (there.rescale c s) =
        c * e.upperClip here there := by
      rw [lowerClip, upperClip, barHere_rescale, barThere_rescale,
        (antitone_mul_left hc.le).map_min]
      simp only [Endpoint.rescale, Bounds.rescale, if_neg hc.not_ge, habove, hbelow]
    have hupper : e.upperClip (here.rescale c s) (there.rescale c s) =
        c * e.lowerClip here there := by
      rw [upperClip, lowerClip, barHere_rescale, barThere_rescale,
        (antitone_mul_left hc.le).map_max]
      simp only [Endpoint.rescale, Bounds.rescale, if_neg hc.not_ge, habove, hbelow]
    rw [hlower, hupper, clip_mul_of_nonpos hc.le hlo hhi]

end Edge

namespace GraphOperator

variable {g : GraphOperator F} {u z : Nat → F} {i : Nat}

theorem Accepted.rateAt_rescale (hg : g.Accepted) (scheme : Scheme) (c s : F) :
    scheme.rateAt g (fun j ↦ c * u j + s) (fun j ↦ c * z j) i = c * scheme.rateAt g u z i := by
  rw [scheme.rateAt_eq_sum, scheme.rateAt_eq_sum, ← mul_div_assoc, Finset.mul_sum]
  congr 1
  refine Finset.sum_congr rfl fun j _ ↦ ?_
  cases h : g.edge? i j with
  | none => simp
  | some e =>
    simp only [Option.elim_some]
    rw [e.lowOrderFlux_rescale, endAt_rescale, endAt_rescale, mul_add]
    congr 1
    cases scheme with
    | lowOrder => exact (mul_zero c).symm
    | highOrder => exact e.targetFlux_rescale c s
    | mcl =>
      exact e.limitedFlux_rescale c s (hg.encloses h u z) (hg.encloses (hg.edge?_mirror h) u z)

theorem Accepted.rate_rescale (hg : g.Accepted) (scheme : Scheme) (c s : F) :
    scheme.rate g (fun j ↦ c * u j + s) i = c * scheme.rate g u i := by
  have hlow : g.lowOrderAt (fun j ↦ c * u j + s) = fun j ↦ c * g.lowOrderAt u j := by
    funext j
    exact hg.rateAt_rescale (z := u) .lowOrder c s
  rw [Scheme.rate, hlow]
  exact hg.rateAt_rescale scheme c s

theorem Accepted.componentRate_rescale (hg : g.Accepted) (scheme : Scheme) (c s : F)
    {numVars p : Nat} {x : Array F} (hx : x.size = numVars * g.numNodes) (hp : p < x.size) :
    scheme.componentRate g (x.map fun v ↦ c * v + s) p = c * scheme.componentRate g x p := by
  have hn : 0 < g.numNodes := by
    rw [hx] at hp
    exact Nat.pos_of_mul_pos_left (Nat.zero_lt_of_lt hp)
  have hvar : p / g.numNodes < numVars := by
    rw [Nat.div_lt_iff_lt_mul hn, ← hx]
    exact hp
  unfold Scheme.componentRate
  rw [← hg.rate_rescale]
  refine scheme.rate_congr (fun j hj ↦ ?_) (Nat.mod_lt p hn)
  have hin : p / g.numNodes * g.numNodes + j < x.size := hx ▸ block_lt hvar hj
  rw [variableAt, variableAt, getD_of_lt (by simpa using hin), getD_of_lt hin, Array.getElem_map]

/-- Under every scheme the rates are homogeneous in the state, whatever the sign of the factor, and
do not depend on a constant that is added to it. -/
theorem evaluate_rescale {mass advection : CsrMatrix F} {lumped : Array F} {g : GraphOperator F}
    (hg : withLumpedMass mass advection lumped = .ok g) {sizes : SizeArithmetic} {numVars : Nat}
    (hvars : numVars ≠ 0) (hsize : sizes.mul numVars g.numNodes = .ok (numVars * g.numNodes))
    {x : Array F} (hx : x.size = numVars * g.numNodes) (scheme : Scheme) (c s : F) :
    ∃ y, evaluate sizes scheme g numVars x = .ok y ∧
      evaluate sizes scheme g numVars (x.map fun v ↦ c * v + s) = .ok (y.map (c * ·)) := by
  have hg := accepted_of_withLumpedMass hg
  have hx' : (x.map fun v ↦ c * v + s).size = numVars * g.numNodes := by
    rw [Array.size_map, hx]
  refine ⟨_, hg.evaluate_eq scheme hvars hsize hx, ?_⟩
  rw [hg.evaluate_eq scheme hvars hsize hx']
  congr 1
  refine Array.ext (by simp) fun p hp hp' ↦ ?_
  have hp : p < x.size := by simpa using hp
  rw [Array.getElem_ofFn, Array.getElem_map, Array.getElem_ofFn,
    hg.componentRate_rescale scheme c s hx hp]

theorem evaluate_rescale_triangle : ∃ y, evaluate .word64 .mcl triangle 1 #[0, 5, -1] = .ok y ∧
    evaluate .word64 .mcl triangle 1 #[3, -7, 5] = .ok (y.map (-2 * ·)) := by
  have hstate : (#[3, -7, 5] : Array ℚ) = #[0, 5, -1].map fun v ↦ -2 * v + 3 := by
    decide +kernel
  rw [hstate]
  exact evaluate_rescale withLumpedMass_triangle one_ne_zero rfl rfl .mcl (-2) 3

end GraphOperator

end GraphTransport
