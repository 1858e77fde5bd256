import GraphTransport.Proofs.Scheme.Fluxes
import GraphTransport.Proofs.Graph.TimeStep

namespace GraphTransport

variable {F : Type} [Field F] [LinearOrder F]

theorem clip_eq_max_min {f lo hi : F} (hlo : lo ≤ 0) (hhi : 0 ≤ hi) :
    clip f lo hi = max lo (min f hi) := by
  unfold clip
  split
  · next hf => exact (max_eq_right (hlo.trans (le_min hf.le hhi))).symm
  · next hf => rw [min_eq_left ((not_lt.1 hf).trans hhi), max_comm]

def IsNearest (S : F → Prop) (f a : F) : Prop := S a ∧ ∀ b, S b → b ≠ a → |a - f| < |b - f|

theorem isNearest_clip [IsStrictOrderedRing F] {f lo hi : F} (hlo : lo ≤ 0) (hhi : 0 ≤ hi) :
    IsNearest (fun a ↦ lo ≤ a ∧ a ≤ hi) f (clip f lo hi) := by
  refine ⟨⟨le_clip hlo hhi, clip_le hlo hhi⟩, ?_⟩
  rintro b ⟨hb, hb'⟩ hne
  rw [clip_eq_max_min hlo hhi] at hne ⊢
  rcases lt_or_ge f lo with hf | hf
  · have hmin : min f hi = f := min_eq_left (hf.le.trans (hlo.trans hhi))
    rw [hmin, max_eq_left hf.le] at hne ⊢
    have hlt : lo < b := lt_of_le_of_ne hb hne.symm
    rw [abs_of_pos (sub_pos.2 hf), abs_of_pos (sub_pos.2 (hf.trans hlt))]
    exact sub_lt_sub_right hlt f
  · rcases le_or_gt f hi with hf' | hf'
    · rw [min_eq_left hf', max_eq_right hf] at hne ⊢
      rw [sub_self, abs_zero]
      exact abs_pos.2 (sub_ne_zero.2 hne)
    · rw [min_eq_right hf'.le, max_eq_right (hlo.trans hhi)] at hne ⊢
      have hlt : b < hi := lt_of_le_of_ne hb' hne
      rw [abs_of_neg (sub_neg.2 hf'), abs_of_neg (sub_neg.2 (hlt.trans hf'))]
      linarith

theorem abs_clip_le [IsStrictOrderedRing F] {f lo hi : F} (hlo : lo ≤ 0) (hhi : 0 ≤ hi) :
    |clip f lo hi| ≤ |f| := by
  unfold clip
  split
  · next hf =>
    rw [abs_of_nonneg (le_min hf.le hhi), abs_of_pos hf]
    exact min_le_left f hi
  · next hf =>
    have hf := not_lt.1 hf
    rw [abs_of_nonpos (max_le hf hlo), abs_of_nonpos hf]
    exact neg_le_neg (le_max_left f lo)

namespace Edge

/-- The flux `f` keeps the bar states of both ends, scaled by twice the viscosity, within the bounds
of their own end. -/
structure Admits (e : Edge F) (here there : Endpoint F) (f : F) : Prop where
  le_here : 2 * e.viscosity * here.bounds.lower ≤ e.barHere here there + f
  here_le : e.barHere here there + f ≤ 2 * e.viscosity * here.bounds.upper
  le_there : 2 * e.viscosity * there.bounds.lower ≤ e.barThere here there - f
  there_le : e.barThere here there - f ≤ 2 * e.viscosity * there.bounds.upper

structure ProjectsFlux (e : Edge F) (here there : Endpoint F) : Prop where
  interval : ∃ lo hi, lo ≤ 0 ∧ 0 ≤ hi ∧ ∀ f, e.Admits here there f ↔ lo ≤ f ∧ f ≤ hi
  nearest : IsNearest (e.Admits here there)
    (e.mass * (here.rate - there.rate) + e.viscosity * (here.value - there.value))
    (e.limitedFlux here there)
  nonneg : 0 ≤ e.targetFlux here there → 0 ≤ e.limitedFlux here there
  nonpos : e.targetFlux here there ≤ 0 → e.limitedFlux here there ≤ 0
  abs_le : |e.limitedFlux here there| ≤ |e.targetFlux here there|
  eq_target : e.Admits here there (e.targetFlux here there) →
    e.limitedFlux here there = e.targetFlux here there
  eq_zero : e.viscosity = 0 → e.limitedFlux here there = 0

variable [IsStrictOrderedRing F] (e : Edge F) {here there : Endpoint F}

theorem admits_iff {f : F} :
    e.Admits here there f ↔ e.lowerClip here there ≤ f ∧ f ≤ e.upperClip here there := by
  rw [lowerClip, upperClip, max_le_iff, le_min_iff]
  constructor
  · intro h
    exact ⟨⟨sub_le_iff_le_add'.2 h.le_here, sub_le_comm.1 h.there_le⟩,
      le_sub_iff_add_le'.2 h.here_le, le_sub_comm.1 h.le_there⟩
  · intro h
    exact ⟨sub_le_iff_le_add'.1 h.1.1, le_sub_iff_add_le'.1 h.2.1, le_sub_comm.1 h.2.2,
      sub_le_comm.1 h.1.2⟩

theorem isNearest_limitedFlux (hh : here.Encloses there) (ht : there.Encloses here) :
    IsNearest (e.Admits here there) (e.targetFlux here there) (e.limitedFlux here there) := by
  have hadmits : e.Admits here there =
      fun f ↦ e.lowerClip here there ≤ f ∧ f ≤ e.upperClip here there := by
    funext f
    exact propext e.admits_iff
  rw [hadmits, limitedFlux_eq_clip]
  exact isNearest_clip (e.lowerClip_nonpos hh ht) (e.upperClip_nonneg hh ht)

theorem limitedFlux_eq_target (hh : here.Encloses there) (ht : there.Encloses here)
    (h : e.Admits here there (e.targetFlux here there)) :
    e.limitedFlux here there = e.targetFlux here there := by
  by_contra hne
  have hlt := (e.isNearest_limitedFlux hh ht).2 _ h (Ne.symm hne)
  rw [sub_self, abs_zero] at hlt
  exact absurd hlt (abs_nonneg _).not_gt

theorem projectsFlux (hh : here.Encloses there) (ht : there.Encloses here) :
    e.ProjectsFlux here there := by
  have hlo := e.lowerClip_nonpos hh ht
  have hhi := e.upperClip_nonneg hh ht
  have hbounded : |e.limitedFlux here there| ≤ |e.targetFlux here there| := abs_clip_le hlo hhi
  refine ⟨⟨_, _, hlo, hhi, fun f ↦ e.admits_iff⟩, e.isNearest_limitedFlux hh ht, ?_, ?_, hbounded,
    e.limitedFlux_eq_target hh ht, ?_⟩
  · intro hf
    rw [limitedFlux_eq_clip, clip_eq_max_min hlo hhi]
    exact (le_min hf hhi).trans (le_max_right _ _)
  · intro hf
    rw [limitedFlux_eq_clip, clip_eq_max_min hlo hhi]
    exact max_le hlo ((min_le_left _ _).trans hf)
  · intro hviscosity
    -- Without viscosity there is no advection along the edge, and both bar states are zero.
    have hforward : e.forward = 0 :=
      abs_nonpos_iff.1 (e.abs_forward_le.trans_eq hviscosity)
    have hlower : e.barHere here there = 0 := by rw [barHere, hviscosity, hforward]; ring
    obtain ⟨hadmits, -⟩ := e.isNearest_limitedFlux hh ht
    have hle := hadmits.le_here
    have hge := hadmits.here_le
    rw [hviscosity, hlower] at hle hge
    linarith

end Edge

namespace GraphOperator

variable [IsStrictOrderedRing F] {g : GraphOperator F} {i j : Nat} {e : Edge F}

theorem Accepted.projectsFlux (hg : g.Accepted) (h : g.edge? i j = some e) (u z : Nat → F) :
    e.ProjectsFlux (g.endAt u z i) (g.endAt u z j) :=
  e.projectsFlux (hg.encloses h u z) (hg.encloses (hg.edge?_mirror h) u z)

/-- The limiter projects at every edge whose ends have both values within their bounds, and the ends
of the edges of an accepted graph have. -/
theorem projectsFlux_of_encloses :
    (∀ (e : Edge F) (here there : Endpoint F), here.Encloses there → there.Encloses here →
      e.ProjectsFlux here there) ∧
    ∀ (mass advection : CsrMatrix F) (lumped : Array F) (g : GraphOperator F),
      withLumpedMass mass advection lumped = .ok g →
      ∀ x z : Array F, x.size = g.numNodes → z.size = g.numNodes → ∀ i < g.numNodes,
        ∃ es here, g.edges i = .ok es ∧ g.endpoint x z i = .ok here ∧
          ∀ e ∈ es, ∃ there, g.endpoint x z e.neighbor = .ok there ∧
            here.Encloses there ∧ there.Encloses here := by
  refine ⟨fun e here there ↦ e.projectsFlux, ?_⟩
  intro mass advection lumped g hg x z hx hz i hi
  have hg := accepted_of_withLumpedMass hg
  refine ⟨_, _, hg.edges_eq hi, hg.endpoint_eq hi hx.ge hz.ge, ?_⟩
  intro e he
  obtain ⟨hj, hedge⟩ := mem_edgeList.1 he
  exact ⟨_, hg.endpoint_eq hj hx.ge hz.ge, hg.encloses hedge _ _,
    hg.encloses (hg.edge?_mirror hedge) _ _⟩

theorem projectsFlux_of_encloses_triangle :
    (Edge.ProjectsFlux (F := ℚ) ⟨1, 1, 2, -1⟩ ⟨1, 8, 0, 3⟩ ⟨0, 0, -1, 1⟩ ∧
      Edge.limitedFlux (α := ℚ) ⟨1, 1, 2, -1⟩ ⟨1, 8, 0, 3⟩ ⟨0, 0, -1, 1⟩ = 7) ∧
    ∃ es here, triangle.edges 1 = .ok es ∧
      triangle.endpoint #[0, 5, -1] #[7, -3, 2] 1 = .ok here ∧
      ∀ e ∈ es, ∃ there, triangle.endpoint #[0, 5, -1] #[7, -3, 2] e.neighbor = .ok there ∧
        here.Encloses there ∧ there.Encloses here := by
  obtain ⟨hproject, htriangle⟩ := projectsFlux_of_encloses (F := ℚ)
  refine ⟨⟨hproject _ _ _ ?_ ?_, by decide +kernel⟩, htriangle _ _ _ triangle
    withLumpedMass_triangle #[0, 5, -1] #[7, -3, 2] rfl rfl 1 (by decide)⟩
  · refine ⟨⟨?_, ?_⟩, ⟨?_, ?_⟩⟩ <;> decide +kernel
  · refine ⟨⟨?_, ?_⟩, ⟨?_, ?_⟩⟩ <;> decide +kernel

end GraphOperator

end GraphTransport
