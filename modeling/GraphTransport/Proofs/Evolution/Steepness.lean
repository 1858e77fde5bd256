import Mathlib.Algebra.BigOperators.Ring.Finset
import Mathlib.Algebra.Order.BigOperators.Group.Finset
import GraphTransport.Comparison
import GraphTransport.Proofs.Evolution.Rates
import GraphTransport.Proofs.Scheme.Projection

namespace GraphTransport

variable {F : Type} [Field F] [LinearOrder F] [IsStrictOrderedRing F]

theorem abs_clip_sub_le {f lo hi f' lo' hi' c : F} (hlo : lo ≤ 0) (hhi : 0 ≤ hi) (hlo' : lo' ≤ 0)
    (hhi' : 0 ≤ hi') (hf : |f - f'| ≤ c) (hlower : |lo - lo'| ≤ c) (hupper : |hi - hi'| ≤ c) :
    |clip f lo hi - clip f' lo' hi'| ≤ c := by
  rw [clip_eq_max_min hlo hhi, clip_eq_max_min hlo' hhi']
  have hmin : |min f hi - min f' hi'| ≤ c :=
    (abs_min_sub_min_le_max _ _ _ _).trans (max_le hf hupper)
  exact (abs_max_sub_max_le_max _ _ _ _).trans (max_le hlower hmin)

theorem abs_mul_add_mul_le {a b v w c : F} (ha : 0 ≤ a) (hb : 0 ≤ b) (hv : |v| ≤ c)
    (hw : |w| ≤ c) : |a * v + b * w| ≤ (a + b) * c := by
  calc |a * v + b * w| ≤ |a * v| + |b * w| := abs_add_le _ _
    _ = a * |v| + b * |w| := by rw [abs_mul, abs_mul, abs_of_nonneg ha, abs_of_nonneg hb]
    _ ≤ a * c + b * c :=
      add_le_add (mul_le_mul_of_nonneg_left hv ha) (mul_le_mul_of_nonneg_left hw hb)
    _ = (a + b) * c := (add_mul a b c).symm

theorem abs_sub_mul_sub_le {a v w p q c : F} (ha : 0 ≤ a) (hv : |v - w| ≤ c)
    (hp : |p - q| ≤ a * c) : |(p - a * v) - (q - a * w)| ≤ 2 * a * c := by
  have hsplit : (p - a * v) - (q - a * w) = (p - q) - a * (v - w) := by ring
  calc |(p - a * v) - (q - a * w)| ≤ |p - q| + |a * (v - w)| := hsplit ▸ abs_sub _ _
    _ ≤ a * c + a * c := by
      rw [abs_mul, abs_of_nonneg ha]
      exact add_le_add hp (mul_le_mul_of_nonneg_left hv ha)
    _ = 2 * a * c := by ring

structure Endpoint.Near (δ ζ : F) (p q : Endpoint F) : Prop where
  value : |p.value - q.value| ≤ δ
  rate : |p.rate - q.rate| ≤ ζ
  lower : |p.bounds.lower - q.bounds.lower| ≤ δ
  upper : |p.bounds.upper - q.bounds.upper| ≤ δ

namespace Edge

variable (e : Edge F) {δ ζ : F} {here there here' there' : Endpoint F}

omit [IsStrictOrderedRing F] in
theorem forward_le : e.forward ≤ e.viscosity := (le_abs_self _).trans e.abs_forward_le

theorem viscosity_add_forward_nonneg : 0 ≤ e.viscosity + e.forward := by
  have h : -e.forward ≤ e.viscosity := (neg_le_abs _).trans e.abs_forward_le
  linarith

theorem abs_lowOrderFlux_sub_le (h : here.Near δ ζ here') (h' : there.Near δ ζ there') :
    |e.lowOrderFlux here.value there.value - e.lowOrderFlux here'.value there'.value| ≤
      4 * e.viscosity * δ := by
  have hδ : 0 ≤ δ := (abs_nonneg _).trans h.value
  have hcoefficient : 0 ≤ e.viscosity - e.forward := sub_nonneg.2 e.forward_le
  have hsplit : e.lowOrderFlux here.value there.value - e.lowOrderFlux here'.value there'.value =
      (e.viscosity - e.forward) * (there.value - there'.value) +
        (e.viscosity - e.forward) * (here'.value - here.value) := by
    unfold lowOrderFlux
    ring
  have hvalue : |here'.value - here.value| ≤ δ := by
    rw [abs_sub_comm]
    exact h.value
  rw [hsplit]
  refine (abs_mul_add_mul_le hcoefficient hcoefficient h'.value hvalue).trans ?_
  apply mul_le_mul_of_nonneg_right _ hδ
  linarith [e.viscosity_add_forward_nonneg]

theorem abs_targetFlux_sub_le (h : here.Near δ ζ here') (h' : there.Near δ ζ there') :
    |e.targetFlux here there - e.targetFlux here' there'| ≤
      2 * |e.mass| * ζ + 2 * e.viscosity * δ := by
  have hsplit : e.targetFlux here there - e.targetFlux here' there' =
      e.mass * ((here.rate - here'.rate) + -(there.rate - there'.rate)) +
        e.viscosity * ((here.value - here'.value) + -(there.value - there'.value)) := by
    unfold targetFlux
    ring
  have hrate := (abs_add_le _ _).trans (add_le_add h.rate ((abs_neg _).trans_le h'.rate))
  have hvalue := (abs_add_le _ _).trans (add_le_add h.value ((abs_neg _).trans_le h'.value))
  rw [hsplit]
  refine (abs_add_le _ _).trans (add_le_add ?_ ?_)
  · rw [abs_mul]
    exact (mul_le_mul_of_nonneg_left hrate (abs_nonneg _)).trans_eq (by ring)
  · rw [abs_mul, abs_of_nonneg e.viscosity_nonneg]
    exact (mul_le_mul_of_nonneg_left hvalue e.viscosity_nonneg).trans_eq (by ring)

theorem abs_barHere_sub_le (h : here.Near δ ζ here') (h' : there.Near δ ζ there') :
    |e.barHere here there - e.barHere here' there'| ≤ 2 * e.viscosity * δ := by
  have hsplit : e.barHere here there - e.barHere here' there' =
      (e.viscosity + e.forward) * (here.value - here'.value) +
        (e.viscosity - e.forward) * (there.value - there'.value) := by
    unfold barHere
    ring
  rw [hsplit]
  refine (abs_mul_add_mul_le e.viscosity_add_forward_nonneg (sub_nonneg.2 e.forward_le) h.value
    h'.value).trans_eq ?_
  ring

theorem abs_barThere_sub_le (h : here.Near δ ζ here') (h' : there.Near δ ζ there') :
    |e.barThere here there - e.barThere here' there'| ≤ 2 * e.viscosity * δ := by
  rw [← e.barHere_mirror 0, ← e.barHere_mirror 0, ← e.mirror_viscosity 0]
  exact (e.mirror 0).abs_barHere_sub_le h' h

theorem abs_lowerClip_sub_le (h : here.Near δ ζ here') (h' : there.Near δ ζ there') :
    |e.lowerClip here there - e.lowerClip here' there'| ≤ 4 * e.viscosity * δ := by
  have htwice : 0 ≤ 2 * e.viscosity := mul_nonneg zero_le_two e.viscosity_nonneg
  have hfour : 2 * (2 * e.viscosity) * δ = 4 * e.viscosity * δ := by ring
  have hhere := abs_sub_mul_sub_le htwice h.lower (e.abs_barHere_sub_le h h')
  have hthere := abs_sub_mul_sub_le htwice h'.upper (e.abs_barThere_sub_le h h')
  rw [abs_sub_comm, ← neg_sub_neg, neg_sub, neg_sub, hfour] at hhere
  rw [hfour] at hthere
  exact (abs_max_sub_max_le_max _ _ _ _).trans (max_le hhere hthere)

theorem abs_upperClip_sub_le (h : here.Near δ ζ here') (h' : there.Near δ ζ there') :
    |e.upperClip here there - e.upperClip here' there'| ≤ 4 * e.viscosity * δ := by
  have hmirror := (e.mirror 0).abs_lowerClip_sub_le h' h
  rwa [lowerClip_mirror, lowerClip_mirror, mirror_viscosity, neg_sub_neg, abs_sub_comm] at hmirror

/-- How much the flux of an edge can change with the state, if the low-order rates change by at most
`r` times as much. -/
def steepness (e : Edge F) (r : F) : F := 8 * e.viscosity + 2 * |e.mass| * r

theorem steepness_nonneg {r : F} (hr : 0 ≤ r) : 0 ≤ e.steepness r :=
  add_nonneg (mul_nonneg (by norm_num) e.viscosity_nonneg)
    (mul_nonneg (mul_nonneg zero_le_two (abs_nonneg _)) hr)

theorem abs_correction_sub_le (scheme : Scheme) (h : here.Near δ ζ here')
    (h' : there.Near δ ζ there') (hh : here.Encloses there) (ht : there.Encloses here)
    (hh' : here'.Encloses there') (ht' : there'.Encloses here') :
    |scheme.correction e here there - scheme.correction e here' there'| ≤
      4 * e.viscosity * δ + 2 * |e.mass| * ζ := by
  have hviscosity : 0 ≤ e.viscosity * δ :=
    mul_nonneg e.viscosity_nonneg ((abs_nonneg _).trans h.value)
  have hmass : 0 ≤ |e.mass| * ζ := mul_nonneg (abs_nonneg _) ((abs_nonneg _).trans h.rate)
  have htarget := e.abs_targetFlux_sub_le h h'
  cases scheme with
  | lowOrder =>
    simp only [Scheme.correction, sub_zero, abs_zero]
    linarith
  | highOrder =>
    simp only [Scheme.correction]
    linarith
  | mcl =>
    have hlower := e.abs_lowerClip_sub_le h h'
    have hupper := e.abs_upperClip_sub_le h h'
    simp only [Scheme.correction, limitedFlux_eq_clip]
    -- Zero lies between the clipping bounds, so a change of sign makes no jump.
    apply abs_clip_sub_le (e.lowerClip_nonpos hh ht) (e.upperClip_nonneg hh ht)
      (e.lowerClip_nonpos hh' ht') (e.upperClip_nonneg hh' ht')
    · linarith
    · linarith
    · linarith

end Edge

namespace GraphOperator

def steepnessAt (g : GraphOperator F) (r : F) (i : Nat) : F :=
  (∑ j ∈ Finset.range g.numNodes, (g.edge? i j).elim 0 fun e ↦ e.steepness r) / g.lumpedAt i

def steepnessOver (g : GraphOperator F) (r : F) : F :=
  ∑ i ∈ Finset.range g.numNodes, g.steepnessAt r i

def steepness (g : GraphOperator F) : F := g.steepnessOver (g.steepnessOver 0)

variable {g : GraphOperator F} {u u' z z' : Nat → F} {r δ : F} {i : Nat}

theorem Accepted.steepnessAt_nonneg (hg : g.Accepted) (hr : 0 ≤ r) (hi : i < g.numNodes) :
    0 ≤ g.steepnessAt r i := by
  refine div_nonneg (Finset.sum_nonneg fun j _ ↦ ?_) (hg.lumped_getD_pos hi).le
  cases g.edge? i j with
  | none => exact le_rfl
  | some e => exact e.steepness_nonneg hr

theorem Accepted.steepnessAt_le (hg : g.Accepted) (hr : 0 ≤ r) (hi : i < g.numNodes) :
    g.steepnessAt r i ≤ g.steepnessOver r :=
  Finset.single_le_sum (f := g.steepnessAt r)
    (fun _ hj ↦ hg.steepnessAt_nonneg hr (Finset.mem_range.1 hj)) (Finset.mem_range.2 hi)

theorem Accepted.steepnessOver_nonneg (hg : g.Accepted) (hr : 0 ≤ r) : 0 ≤ g.steepnessOver r :=
  Finset.sum_nonneg fun _ hi ↦ hg.steepnessAt_nonneg hr (Finset.mem_range.1 hi)

theorem near_boundsAt (hu : ∀ j < g.numNodes, |u j - u' j| ≤ δ) (hi : i < g.numNodes) :
    |(g.boundsAt u i).lower - (g.boundsAt u' i).lower| ≤ δ ∧
      |(g.boundsAt u i).upper - (g.boundsAt u' i).upper| ≤ δ := by
  have hlower {v w : Nat → F} (hvw : ∀ j < g.numNodes, v j - w j ≤ δ) :
      (g.boundsAt v i).lower - (g.boundsAt w i).lower ≤ δ := by
    rw [sub_le_comm]
    obtain ⟨hself, hneighbors⟩ := le_lower_boundsAt_iff.1 (le_refl (g.boundsAt v i).lower)
    apply le_lower_boundsAt_iff.2
    constructor
    · linarith [hvw i hi]
    · intro j hj
      linarith [hvw j (lt_of_mem_neighbors hj), hneighbors j hj]
  have hupper {v w : Nat → F} (hvw : ∀ j < g.numNodes, v j - w j ≤ δ) :
      (g.boundsAt v i).upper - (g.boundsAt w i).upper ≤ δ := by
    rw [sub_le_iff_le_add]
    obtain ⟨hself, hneighbors⟩ := upper_boundsAt_le_iff.1 (le_refl (g.boundsAt w i).upper)
    apply upper_boundsAt_le_iff.2
    constructor
    · linarith [hvw i hi]
    · intro j hj
      linarith [hvw j (lt_of_mem_neighbors hj), hneighbors j hj]
  have hforth (j : Nat) (hj : j < g.numNodes) : u j - u' j ≤ δ := (abs_sub_le_iff.1 (hu j hj)).1
  have hback (j : Nat) (hj : j < g.numNodes) : u' j - u j ≤ δ := (abs_sub_le_iff.1 (hu j hj)).2
  exact ⟨abs_sub_le_iff.2 ⟨hlower hforth, hlower hback⟩,
    abs_sub_le_iff.2 ⟨hupper hforth, hupper hback⟩⟩

theorem near_endAt {ζ : F} (hu : ∀ j < g.numNodes, |u j - u' j| ≤ δ)
    (hz : ∀ j < g.numNodes, |z j - z' j| ≤ ζ) (hi : i < g.numNodes) :
    (g.endAt u z i).Near δ ζ (g.endAt u' z' i) := by
  obtain ⟨hlower, hupper⟩ := near_boundsAt hu hi
  exact ⟨hu i hi, hz i hi, hlower, hupper⟩

namespace Accepted

theorem abs_rateAt_sub_le (hg : g.Accepted) (scheme : Scheme)
    (hu : ∀ j < g.numNodes, |u j - u' j| ≤ δ) (hz : ∀ j < g.numNodes, |z j - z' j| ≤ r * δ)
    (hi : i < g.numNodes) :
    |scheme.rateAt g u z i - scheme.rateAt g u' z' i| ≤ g.steepnessAt r i * δ := by
  have hmass : 0 < g.lumpedAt i := hg.lumped_getD_pos hi
  rw [scheme.rateAt_eq_sum, scheme.rateAt_eq_sum, ← sub_div, ← Finset.sum_sub_distrib, abs_div,
    abs_of_pos hmass, steepnessAt, div_mul_eq_mul_div, Finset.sum_mul]
  apply div_le_div_of_nonneg_right _ hmass.le
  refine (Finset.abs_sum_le_sum_abs _ _).trans (Finset.sum_le_sum fun j _ ↦ ?_)
  cases h : g.edge? i j with
  | none => simp
  | some e =>
    have hhere := near_endAt hu hz hi
    have hthere := near_endAt hu hz (hg.lt_of_edge? h).2
    have hflux := e.abs_lowOrderFlux_sub_le hhere hthere
    have hcorrection := e.abs_correction_sub_le scheme hhere hthere (hg.encloses h u z)
      (hg.encloses (hg.edge?_mirror h) u z) (hg.encloses h u' z')
      (hg.encloses (hg.edge?_mirror h) u' z')
    simp only [Option.elim_some]
    rw [add_sub_add_comm]
    refine (abs_add_le _ _).trans ((add_le_add hflux hcorrection).trans_eq ?_)
    unfold Edge.steepness
    ring

theorem abs_rate_sub_le (hg : g.Accepted) (scheme : Scheme)
    (hu : ∀ j < g.numNodes, |u j - u' j| ≤ δ) (hi : i < g.numNodes) :
    |scheme.rate g u i - scheme.rate g u' i| ≤ g.steepness * δ := by
  have hδ : 0 ≤ δ := (abs_nonneg _).trans (hu i hi)
  have hfirst : 0 ≤ g.steepnessOver 0 := hg.steepnessOver_nonneg le_rfl
  -- The low-order scheme looks at no low-order rates, so any that agree will do.
  have hlow (j : Nat) (hj : j < g.numNodes) :
      |g.lowOrderAt u j - g.lowOrderAt u' j| ≤ g.steepnessOver 0 * δ := by
    have hzero (k : Nat) (_ : k < g.numNodes) : |u k - u k| ≤ 0 * δ := by simp
    have hrow := hg.abs_rateAt_sub_le .lowOrder hu hzero hj
    exact hrow.trans (mul_le_mul_of_nonneg_right (hg.steepnessAt_le le_rfl hj) hδ)
  have hrow := hg.abs_rateAt_sub_le scheme hu hlow hi
  exact hrow.trans (mul_le_mul_of_nonneg_right (hg.steepnessAt_le hfirst hi) hδ)

end Accepted

end GraphOperator

omit [IsStrictOrderedRing F] in
theorem abs_sub_le_maxDifference {x x' : Array F} {p : Nat} (hp : p < x.size) (hp' : p < x'.size) :
    |x.getD p 0 - x'.getD p 0| ≤ maxDifference x x' := by
  unfold maxDifference
  rw [← Array.foldl_toList]
  apply foldl_max_le_iff.1 le_rfl
  apply List.mem_cons_of_mem
  rw [getD_of_lt hp, getD_of_lt hp', Array.mem_toList_iff]
  refine Array.mem_of_getElem? (i := p) ?_
  rw [Array.getElem?_zipWith, Array.getElem?_eq_getElem hp, Array.getElem?_eq_getElem hp']
  rfl

namespace GraphOperator

variable {g : GraphOperator F} {numVars : Nat} {x x' : Array F}

theorem Accepted.abs_componentRate_sub_le (hg : g.Accepted) (scheme : Scheme)
    (hx : x.size = numVars * g.numNodes) (hx' : x'.size = numVars * g.numNodes) {p : Nat}
    (hp : p < x.size) : |scheme.componentRate g x p - scheme.componentRate g x' p| ≤
      g.steepness * maxDifference x x' := by
  rw [hx] at hp
  have hn : 0 < g.numNodes := Nat.pos_of_mul_pos_left (Nat.zero_lt_of_lt hp)
  have hvar : p / g.numNodes < numVars := (Nat.div_lt_iff_lt_mul hn).2 hp
  unfold Scheme.componentRate
  apply hg.abs_rate_sub_le scheme _ (Nat.mod_lt p hn)
  intro j hj
  have hin : p / g.numNodes * g.numNodes + j < numVars * g.numNodes := block_lt hvar hj
  exact abs_sub_le_maxDifference (hin.trans_eq hx.symm) (hin.trans_eq hx'.symm)

/-- Under every scheme, the limited one included, no rate has a jump: the rates of two states are
apart by at most the steepness of the graph times the greatest distance between the states. -/
theorem abs_evaluate_sub_le {mass advection : CsrMatrix F} {lumped : Array F}
    (hg : withLumpedMass mass advection lumped = .ok g) {sizes : SizeArithmetic}
    (hvars : numVars ≠ 0) (hsize : sizes.mul numVars g.numNodes = .ok (numVars * g.numNodes))
    (hx : x.size = numVars * g.numNodes) (hx' : x'.size = numVars * g.numNodes)
    (scheme : Scheme) : ∃ y y', evaluate sizes scheme g numVars x = .ok y ∧
      evaluate sizes scheme g numVars x' = .ok y' ∧
      ∀ p < x.size, |valueAt y p - valueAt y' p| ≤ g.steepness * maxDifference x x' := by
  have hg := accepted_of_withLumpedMass hg
  refine ⟨_, _, hg.evaluate_eq scheme hvars hsize hx, hg.evaluate_eq scheme hvars hsize hx', ?_⟩
  intro p hp
  have hp' : p < x'.size := hp.trans_eq (hx.trans hx'.symm)
  rw [valueAt, valueAt, getD_of_lt (by simpa using hp), getD_of_lt (by simpa using hp'),
    Array.getElem_ofFn, Array.getElem_ofFn]
  exact hg.abs_componentRate_sub_le scheme hx hx' hp

theorem abs_evaluate_sub_le_triangle :
    ∃ y y', evaluate .word64 .mcl triangle 1 #[0, 5, -1] = .ok y ∧
      evaluate .word64 .mcl triangle 1 #[0, 6, -3] = .ok y' ∧
      |valueAt y 1 - valueAt y' 1| ≤ triangle.steepness * 2 := by
  let x : Array ℚ := #[0, 5, -1]
  let x' : Array ℚ := #[0, 6, -3]
  have hdifference : maxDifference x x' = 2 := by decide +kernel
  have hsize : SizeArithmetic.word64.mul 1 triangle.numNodes = .ok (1 * triangle.numNodes) := rfl
  have hx : x.size = 1 * triangle.numNodes := rfl
  have hx' : x'.size = 1 * triangle.numNodes := rfl
  obtain ⟨y, y', hy, hy', hapart⟩ :=
    abs_evaluate_sub_le withLumpedMass_triangle one_ne_zero hsize hx hx' .mcl
  exact ⟨y, y', hy, hy', hdifference ▸ hapart 1 (by decide)⟩

end GraphOperator

end GraphTransport
