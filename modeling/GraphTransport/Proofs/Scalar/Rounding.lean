import GraphTransport.Proofs.Scheme.Clipping

namespace GraphTransport

variable {F : Type} [Field F] [LinearOrder F]

structure Rounding (F : Type) [Field F] [LinearOrder F] where
  round : F → F
  round_round : ∀ a, round (round a) = round a
  round_neg : ∀ a, round (-a) = -round a
  mono : Monotone round

/-- Rounding commutes with doubling, and two is not rounded. -/
structure Rounding.Doubles (ρ : Rounding F) : Prop where
  round_two_mul : ∀ a, ρ.round (2 * a) = 2 * ρ.round a
  round_two : ρ.round 2 = 2

def Rounded (ρ : Rounding F) : Type := { a : F // ρ.round a = a }

namespace Rounded

variable {ρ : Rounding F}

def of (ρ : Rounding F) (a : F) : Rounded ρ := ⟨ρ.round a, ρ.round_round a⟩

instance : LinearOrder (Rounded ρ) := inferInstanceAs (LinearOrder { a : F // ρ.round a = a })

theorem val_max (a b : Rounded ρ) : (max a b).val = max a.val b.val :=
  Monotone.map_max (fun _ _ h ↦ h)

theorem val_min (a b : Rounded ρ) : (min a b).val = min a.val b.val :=
  Monotone.map_min (fun _ _ h ↦ h)

variable [IsStrictOrderedRing F]

theorem round_zero (ρ : Rounding F) : ρ.round 0 = 0 := by
  have h := ρ.round_neg 0
  rw [neg_zero] at h
  exact self_eq_neg.1 h

omit [IsStrictOrderedRing F] in
theorem round_abs (a : Rounded ρ) : ρ.round |a.val| = |a.val| := by
  rcases abs_choice a.val with h | h
  · rw [h, a.property]
  · rw [h, ρ.round_neg, a.property]

instance : Scalar (Rounded ρ) where
  zero := ⟨0, round_zero ρ⟩
  one := of ρ 1
  add a b := of ρ (a.val + b.val)
  sub a b := of ρ (a.val - b.val)
  mul a b := of ρ (a.val * b.val)
  div a b := of ρ (a.val / b.val)
  neg a := ⟨-a.val, by rw [ρ.round_neg, a.property]⟩
  natCast n := of ρ n
  ofScientific m s e := of ρ (OfScientific.ofScientific m s e)
  abs a := ⟨|a.val|, a.round_abs⟩
  decidableLT := inferInstance
  decidableLE := inferInstance

theorem val_neg (a : Rounded ρ) : (-a).val = -a.val := rfl

theorem val_sub (a b : Rounded ρ) : (a - b).val = ρ.round (a.val - b.val) := rfl

theorem pos_iff {a : Rounded ρ} : 0 < a ↔ 0 < a.val := Iff.rfl

instance : SignedScalar (Rounded ρ) where
  add_comm a b := Subtype.ext (congrArg ρ.round (add_comm a.val b.val))
  neg_add a b := Subtype.ext <| by
    change -ρ.round (a.val + b.val) = ρ.round (-a.val + -b.val)
    rw [← ρ.round_neg, neg_add]
  neg_sub a b := Subtype.ext <| by
    rw [val_neg, val_sub, val_sub, ← ρ.round_neg, neg_sub]
  mul_neg a b := Subtype.ext <| by
    change ρ.round (a.val * -b.val) = -ρ.round (a.val * b.val)
    rw [mul_neg, ρ.round_neg]
  max_comm := max_comm
  neg_max a b := Subtype.ext <| by
    rw [val_neg, val_max, val_min]
    exact (min_neg_neg a.val b.val).symm
  neg_min a b := Subtype.ext <| by
    rw [val_neg, val_max, val_min]
    exact (max_neg_neg a.val b.val).symm

theorem val_mul (a b : Rounded ρ) : (a * b).val = ρ.round (a.val * b.val) := rfl

theorem val_add (a b : Rounded ρ) : (a + b).val = ρ.round (a.val + b.val) := rfl

section Zero

variable (a : Rounded ρ)

theorem val_zero : (0 : Rounded ρ).val = 0 := rfl

protected theorem sub_self : a - a = 0 := Subtype.ext <| by
  rw [val_sub, sub_self, round_zero, val_zero]

protected theorem sub_zero : a - 0 = a := Subtype.ext <| by
  rw [val_sub, val_zero, sub_zero, a.property]

protected theorem add_zero : a + 0 = a := Subtype.ext <| by
  rw [val_add, val_zero, add_zero, a.property]

protected theorem mul_zero : a * 0 = 0 := Subtype.ext <| by
  rw [val_mul, val_zero, mul_zero, round_zero]

protected theorem zero_div : 0 / a = 0 := Subtype.ext <| by
  have hval : (0 / a).val = ρ.round ((0 : Rounded ρ).val / a.val) := rfl
  rw [hval, val_zero, zero_div, round_zero]

end Zero

theorem two_mul_mul (hρ : ρ.Doubles) (a b : Rounded ρ) : 2 * a * b = a * (b + b) := by
  have htwo : (2 : Rounded ρ).val = 2 := hρ.round_two
  have hleft : (2 * a).val = 2 * a.val := by
    rw [val_mul, htwo, hρ.round_two_mul, a.property]
  have hright : (b + b).val = 2 * b.val := by
    rw [val_add, ← two_mul, hρ.round_two_mul, b.property]
  have hproduct : 2 * a.val * b.val = a.val * (2 * b.val) := by rw [mul_assoc, mul_left_comm]
  apply Subtype.ext
  rw [val_mul (2 * a), val_mul a (b + b), hleft, hright, hproduct]

theorem val_clip (f lo hi : Rounded ρ) : (clip f lo hi).val = clip f.val lo.val hi.val := by
  by_cases hf : 0 < f
  · rw [clip, clip, if_pos hf, if_pos (pos_iff.1 hf), val_min]
  · rw [clip, clip, if_neg hf, if_neg (mt pos_iff.2 hf), val_max]

end Rounded

end GraphTransport
