import Mathlib.Algebra.Order.Group.MinMax
import Mathlib.Tactic.Ring
import Mathlib.Tactic.Linarith
import GraphTransport.Proofs.Scalar.Exact
import GraphTransport.Scheme.Limiting

namespace GraphTransport

variable {α : Type} [Scalar α]

def clip (f lo hi : α) : α := if 0 < f then min f hi else max f lo

namespace Edge

variable (e : Edge α) (here there : Endpoint α)

def lowerClip : α :=
  max (2 * e.viscosity * here.bounds.lower - e.barHere here there)
    (e.barThere here there - 2 * e.viscosity * there.bounds.upper)

def upperClip : α :=
  min (2 * e.viscosity * here.bounds.upper - e.barHere here there)
    (e.barThere here there - 2 * e.viscosity * there.bounds.lower)

theorem limitedFlux_eq_clip : e.limitedFlux here there =
    clip (e.targetFlux here there) (e.lowerClip here there) (e.upperClip here there) := rfl

end Edge

/-- The laws of signs that exact and rounded arithmetic share. -/
class SignedScalar (α : Type) [Scalar α] : Prop where
  add_comm : ∀ a b : α, a + b = b + a
  neg_add : ∀ a b : α, -(a + b) = -a + -b
  neg_sub : ∀ a b : α, -(a - b) = b - a
  mul_neg : ∀ a b : α, a * -b = -(a * b)
  max_comm : ∀ a b : α, max a b = max b a
  neg_max : ∀ a b : α, -max a b = min (-a) (-b)
  neg_min : ∀ a b : α, -min a b = max (-a) (-b)

instance [SignedScalar α] : SymmetricViscosity α := ⟨fun _ _ ↦ SignedScalar.max_comm _ _⟩

namespace Edge

variable [SignedScalar α] (e : Edge α) (i : Nat) (here there : Endpoint α)

theorem targetFlux_mirror : (e.mirror i).targetFlux there here = -e.targetFlux here there := by
  rw [targetFlux, targetFlux, mirror_viscosity, SignedScalar.neg_add, ← SignedScalar.mul_neg,
    ← SignedScalar.mul_neg, SignedScalar.neg_sub, SignedScalar.neg_sub]
  rfl

theorem barHere_mirror : (e.mirror i).barHere there here = e.barThere here there := by
  rw [barHere, barThere, mirror_viscosity, SignedScalar.add_comm there.value]
  rfl

theorem barThere_mirror : (e.mirror i).barThere there here = e.barHere here there := by
  rw [barHere, barThere, mirror_viscosity, SignedScalar.add_comm there.value]
  rfl

theorem lowerClip_mirror : (e.mirror i).lowerClip there here = -e.upperClip here there := by
  rw [lowerClip, upperClip, mirror_viscosity, barHere_mirror, barThere_mirror,
    SignedScalar.neg_min, SignedScalar.neg_sub, SignedScalar.neg_sub, SignedScalar.max_comm]

theorem upperClip_mirror : (e.mirror i).upperClip there here = -e.lowerClip here there := by
  rw [lowerClip, upperClip, mirror_viscosity, barHere_mirror, barThere_mirror,
    SignedScalar.max_comm, SignedScalar.neg_max, SignedScalar.neg_sub, SignedScalar.neg_sub]

end Edge

section Exact

variable {F : Type} [Field F] [LinearOrder F] {f lo hi : F}

def Bounds.Contains (bounds : Bounds F) (v : F) : Prop := bounds.lower ≤ v ∧ v ≤ bounds.upper

def Endpoint.Encloses (here there : Endpoint F) : Prop :=
  here.bounds.Contains here.value ∧ here.bounds.Contains there.value

theorem le_clip (hlo : lo ≤ 0) (hhi : 0 ≤ hi) : lo ≤ clip f lo hi := by
  unfold clip
  split
  · next hf => exact le_min (hlo.trans hf.le) (hlo.trans hhi)
  · exact le_max_right _ _

theorem clip_le (hlo : lo ≤ 0) (hhi : 0 ≤ hi) : clip f lo hi ≤ hi := by
  unfold clip
  split
  · exact min_le_right _ _
  · next hf => exact max_le ((not_lt.1 hf).trans hhi) (hlo.trans hhi)

variable [IsStrictOrderedRing F]

instance : SignedScalar F where
  add_comm := add_comm
  neg_add := neg_add
  neg_sub := neg_sub
  mul_neg := mul_neg
  max_comm := max_comm
  neg_max a b := (min_neg_neg a b).symm
  neg_min a b := (max_neg_neg a b).symm

/-- Opposite fluxes between opposite bounds are cut to opposite values, unless the flux is zero and
the bounds leave zero out: zero is cut from below only. -/
theorem clip_neg_eq_neg_iff :
    clip (-f) (-hi) (-lo) = -clip f lo hi ↔ (f = 0 → lo ≤ 0 ∧ 0 ≤ hi) := by
  unfold clip
  rcases lt_trichotomy f 0 with hf | rfl | hf
  · rw [if_pos (neg_pos.2 hf), if_neg hf.not_gt, min_neg_neg]
    simp [hf.ne]
  · have hlo := le_max_left 0 lo
    have hhi := le_max_left 0 (-hi)
    rw [neg_zero, if_neg (lt_irrefl 0), if_neg (lt_irrefl 0), eq_neg_iff_add_eq_zero,
      add_eq_zero_iff_of_nonneg hhi hlo, max_eq_left_iff, max_eq_left_iff]
    simp [and_comm]
  · rw [if_neg (neg_neg_of_pos hf).not_gt, if_pos hf, max_neg_neg]
    simp [hf.ne']

theorem le_barState {d k a b v : F} (hk : |k| ≤ d) (ha : v ≤ a) (hb : v ≤ b) :
    2 * d * v ≤ d * (a + b) - k * (b - a) := by
  obtain ⟨hlo, hhi⟩ := abs_le.1 hk
  have hfirst : 0 ≤ (d + k) * (a - v) := mul_nonneg (by linarith) (by linarith)
  have hsecond : 0 ≤ (d - k) * (b - v) := mul_nonneg (by linarith) (by linarith)
  linarith

theorem barState_le {d k a b v : F} (hk : |k| ≤ d) (ha : a ≤ v) (hb : b ≤ v) :
    d * (a + b) - k * (b - a) ≤ 2 * d * v := by
  have h := le_barState hk (neg_le_neg ha) (neg_le_neg hb)
  linarith

namespace Edge

variable (e : Edge F) {here there : Endpoint F}

theorem lowerClip_nonpos (hh : here.Encloses there) (ht : there.Encloses here) :
    e.lowerClip here there ≤ 0 := by
  refine max_le (sub_nonpos.2 ?_) (sub_nonpos.2 ?_)
  · exact le_barState e.abs_forward_le hh.1.1 hh.2.1
  · rw [barThere, add_comm here.value]
    exact barState_le e.abs_backward_le ht.1.2 ht.2.2

theorem upperClip_nonneg (hh : here.Encloses there) (ht : there.Encloses here) :
    0 ≤ e.upperClip here there := by
  refine le_min (sub_nonneg.2 ?_) (sub_nonneg.2 ?_)
  · exact barState_le e.abs_forward_le hh.1.2 hh.2.2
  · rw [barThere, add_comm here.value]
    exact le_barState e.abs_backward_le ht.1.1 ht.2.1

theorem limitedFlux_mirror (hh : here.Encloses there) (ht : there.Encloses here) (i : Nat) :
    (e.mirror i).limitedFlux there here = -e.limitedFlux here there := by
  rw [limitedFlux_eq_clip, targetFlux_mirror, lowerClip_mirror, upperClip_mirror,
    limitedFlux_eq_clip, clip_neg_eq_neg_iff]
  exact fun _ ↦ ⟨e.lowerClip_nonpos hh ht, e.upperClip_nonneg hh ht⟩

theorem le_barHere_add_limitedFlux (hh : here.Encloses there) (ht : there.Encloses here) :
    2 * e.viscosity * here.bounds.lower ≤ e.barHere here there + e.limitedFlux here there := by
  have hclip : e.lowerClip here there ≤ e.limitedFlux here there :=
    le_clip (e.lowerClip_nonpos hh ht) (e.upperClip_nonneg hh ht)
  have hlower : 2 * e.viscosity * here.bounds.lower - e.barHere here there ≤
      e.lowerClip here there := le_max_left _ _
  linarith

theorem barHere_add_limitedFlux_le (hh : here.Encloses there) (ht : there.Encloses here) :
    e.barHere here there + e.limitedFlux here there ≤ 2 * e.viscosity * here.bounds.upper := by
  have hclip : e.limitedFlux here there ≤ e.upperClip here there :=
    clip_le (e.lowerClip_nonpos hh ht) (e.upperClip_nonneg hh ht)
  have hupper : e.upperClip here there ≤
      2 * e.viscosity * here.bounds.upper - e.barHere here there := min_le_left _ _
  linarith

end Edge

end Exact

end GraphTransport
