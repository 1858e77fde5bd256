import GraphTransport.Proofs.Scalar.Binary64
import GraphTransport.Proofs.Scalar.NonnegativeSums

namespace GraphTransport.Binary64

open Float.Model (Format UnpackedFloat totalExponent)
open Float.Model.UnpackedFloat

section Rounding

variable {spec : Format} {m : Nat} {e : Int}

/-- Infinity, or a positive number that has at most the digits of the format. -/
inductive IsPositive (spec : Format) : UnpackedFloat → Prop
  | infinity : IsPositive spec (.infinity .positive)
  | finite {m : Nat} {e : Int} (hpos : 0 < m) (hm : m < 2 ^ spec.mantissaBits)
      (he : spec.minExponent ≤ e) : IsPositive spec (.finite .positive m e hpos)

theorem mantissa_shiftRight (x : ExtendedMantissa) (n : Nat) :
    (x >>> n).mantissa = x.mantissa / 2 ^ n := by
  change (n.repeat ExtendedMantissa.shiftRightOne x).mantissa = _
  induction n with
  | zero => simp [Nat.repeat]
  | succ n ih =>
    rw [Nat.repeat, ExtendedMantissa.shiftRightOne, ih, Nat.div_div_eq_div_mul, pow_succ]

theorem mantissa_ofMantissaAndAccuracy (m : Nat) (accuracy : Accuracy) :
    (ExtendedMantissa.ofMantissaAndAccuracy m accuracy).mantissa = m := by
  cases accuracy with
  | exact => rfl
  | inexact order => cases order <;> rfl

theorem mantissa_le_roundedMantissa (x : ExtendedMantissa) : x.mantissa ≤ x.roundedMantissa := by
  obtain ⟨m, round, sticky⟩ := x
  cases round <;> cases sticky <;>
    simp [ExtendedMantissa.roundedMantissa, ExtendedMantissa.accuracy, Accuracy.roundToNearestEven]

theorem shiftToTargetExponent_spec (hm : 0 < m) (he : spec.minExponent ≤ e)
    (accuracy : Accuracy) :
    let shifted := shiftToTargetExponent spec m e accuracy
    0 < shifted.1.mantissa ∧ shifted.1.mantissa < 2 ^ spec.mantissaBits ∧
      spec.minExponent ≤ shifted.2 := by
  intro shifted
  have hbits : 0 < spec.mantissaBits := by
    rw [Format.mantissaBits]
    omega
  have hamount : (spec.targetExponent (totalExponent m e) - e).toNat =
      m.log2 + 1 - spec.mantissaBits := by
    rw [Format.targetExponent, totalExponent]
    omega
  have hmantissa : shifted.1.mantissa = m / 2 ^ (m.log2 + 1 - spec.mantissaBits) := by
    rw [← hamount]
    exact (mantissa_shiftRight _ _).trans (by rw [mantissa_ofMantissaAndAccuracy])
  rw [hmantissa]
  refine ⟨Nat.div_pos ?_ (Nat.two_pow_pos _), ?_, ?_⟩
  · calc 2 ^ (m.log2 + 1 - spec.mantissaBits) ≤ 2 ^ m.log2 :=
          Nat.pow_le_pow_right (by omega) (by omega)
      _ ≤ m := Nat.log2_self_le hm.ne'
  · rw [Nat.div_lt_iff_lt_mul (Nat.two_pow_pos _), ← pow_add]
    calc m < 2 ^ (m.log2 + 1) := Nat.lt_log2_self
      _ ≤ 2 ^ (spec.mantissaBits + (m.log2 + 1 - spec.mantissaBits)) :=
          Nat.pow_le_pow_right (by omega) (by omega)
  · change spec.minExponent ≤ e + _
    omega

theorem isPositive_roundWithAccuracy (hm : 0 < m) (he : spec.minExponent ≤ e)
    (accuracy : Accuracy) : IsPositive spec (roundWithAccuracy spec .positive m e accuracy) := by
  -- Rounding up can carry into one digit more, which the second shift drops.
  obtain ⟨hm₁, -, he₁⟩ := shiftToTargetExponent_spec hm he accuracy
  obtain ⟨hm₂, hlt, he₂⟩ := shiftToTargetExponent_spec
    (hm₁.trans_le (mantissa_le_roundedMantissa _)) he₁ .exact
  rw [roundWithAccuracy]
  simp only [hm₂.ne', dite_false]
  exact .finite hm₂ hlt he₂

theorem decreaseExponent_spec (hm : 0 < m) {t : Int} (he : spec.minExponent ≤ e)
    (ht : spec.minExponent ≤ t) :
    0 < (decreaseExponent m e t).1 ∧ spec.minExponent ≤ (decreaseExponent m e t).2 := by
  constructor
  · change 0 < m <<< _
    rw [Nat.shiftLeft_eq]
    positivity
  · change spec.minExponent ≤ e - _
    omega

theorem isPositive_normalize (hm : 0 < m) (he : spec.minExponent ≤ e) :
    IsPositive spec (normalize spec m e .positive) := by
  have hcompare : compare (m : Int) 0 = .gt := Int.compare_eq_gt.2 (by omega)
  unfold UnpackedFloat.normalize
  rw [hcompare]
  have htarget : spec.minExponent ≤ spec.targetExponent (totalExponent m e) := le_max_right _ _
  obtain ⟨hm', he'⟩ := decreaseExponent_spec hm he htarget
  exact isPositive_roundWithAccuracy hm' he' .exact

namespace IsPositive

variable {u v : UnpackedFloat} {s : Sign}

theorem add (hu : IsPositive spec u) (hv : IsPositive spec v) : IsPositive spec (u.add spec v) := by
  cases hu with
  | infinity => cases hv <;> exact .infinity
  | finite hm _ he =>
    cases hv with
    | infinity => exact .infinity
    | finite hm' _ he' =>
      have hmin := le_min he he'
      have hleft := (decreaseExponent_spec hm he hmin).1
      have hright := (decreaseExponent_spec hm' he' hmin).1
      exact isPositive_normalize (Nat.add_pos_left hleft _) hmin

theorem add_zero (hu : IsPositive spec u) : IsPositive spec (u.add spec (.zero s)) := by
  cases hu with
  | infinity => exact .infinity
  | finite hpos hm he => exact .finite hpos hm he

theorem zero_add (hu : IsPositive spec u) :
    IsPositive spec ((UnpackedFloat.zero s).add spec u) := by
  cases hu with
  | infinity => exact .infinity
  | finite hpos hm he => exact .finite hpos hm he

theorem zero_compare (hu : IsPositive spec u) :
    (UnpackedFloat.zero s).compare u = some .lt := by
  cases hu <;> rfl

end IsPositive

end Rounding

section Words

variable {b : BitVec Format.binary64.numBits} {s : Sign} {u : UnpackedFloat}

theorem exponentBias_binary64 : Format.binary64.exponentBias = 1023 := by decide

theorem minExponent_binary64 : Format.binary64.minExponent = -1074 := by decide

theorem isPositive_unpack (h : (UnpackedFloat.zero s).compare (unpack .binary64 b) = some .lt) :
    IsPositive .binary64 (unpack .binary64 b) := by
  unfold unpack at h ⊢
  dsimp only at h ⊢
  generalize Sign.ofBitVec (unpackSign b) = t at h ⊢
  cases t with
  | negative =>
    split at h
    · split at h <;> cases h
    · split at h
      · split at h <;> cases h
      · cases h
  | positive =>
    split
    · split
      · exact .infinity
      · next he hm => simp [he, hm, UnpackedFloat.compare] at h
    · split
      · split
        · next he' he hm => simp [he, hm, UnpackedFloat.compare] at h
        · apply IsPositive.finite
          · exact (unpackMantissa b).isLt.trans (by decide)
          · rw [minExponent_binary64, exponentBias_binary64]
            omega
      · next he =>
        have he : 0 < (unpackExponent b).toNat :=
          (BitVec.toNat_pos _).2 ((BitVec.pos_iff_ne_zero _).2 he)
        apply IsPositive.finite
        · exact (1#1 ++ unpackMantissa b).isLt
        · rw [minExponent_binary64, exponentBias_binary64]
          omega

theorem zero_compare_unpack_packComponents {spec : Format} {exponent : BitVec spec.exponentBits}
    {mantissa : BitVec spec.mantissaBitsWithoutImplicit} (hlast : exponent ≠ -1#_)
    (hpos : exponent ≠ 0#_ ∨ mantissa ≠ 0#_) : (UnpackedFloat.zero s).compare
      (unpack spec (packComponents spec .positive exponent mantissa)) = some .lt := by
  simp only [unpack, unpackMantissa_packComponents, unpackExponent_packComponents,
    unpackSign_packComponents]
  rw [if_neg hlast]
  split
  · next hexponent =>
    have hmantissa : mantissa ≠ 0#_ := hpos.resolve_left (not_not.2 hexponent)
    rw [dif_neg hmantissa]
    rfl
  · rfl

theorem zero_compare_unpack_normal {k : Nat} (hpos : 0 < k) (hlt : k + 1 < 2 ^ 11)
    (mantissa : BitVec 52) : (UnpackedFloat.zero s).compare (unpack .binary64
      (packComponents .binary64 .positive (BitVec.ofNat 11 k) mantissa)) = some .lt := by
  have hk : (BitVec.ofNat 11 k).toNat = k := by
    rw [BitVec.toNat_ofNat]
    exact Nat.mod_eq_of_lt (Nat.lt_of_succ_lt hlt)
  have hlast : (-1#11).toNat = 2047 := by decide
  apply zero_compare_unpack_packComponents
  · rw [ne_eq, ← BitVec.toNat_inj, hk, hlast]
    omega
  · left
    rw [ne_eq, ← BitVec.toNat_inj, hk, BitVec.toNat_zero]
    exact hpos.ne'

theorem zero_compare_unpack_subnormal {m : Nat} (hpos : 0 < m) (hlt : m < 2 ^ 52) :
    (UnpackedFloat.zero s).compare (unpack .binary64
      (packComponents .binary64 .positive 0 (BitVec.ofNat 52 m))) = some .lt := by
  apply zero_compare_unpack_packComponents (by decide)
  right
  rw [ne_eq, ← BitVec.toNat_inj, BitVec.toNat_ofNat, Nat.mod_eq_of_lt hlt]
  exact hpos.ne'

theorem isPositive_unpack_pack (hu : IsPositive .binary64 u) :
    IsPositive .binary64 (unpack .binary64 (pack .binary64 u)) := by
  cases hu with
  | infinity => exact .infinity
  | @finite m e hpos hm he =>
    rw [minExponent_binary64] at he
    apply isPositive_unpack (s := .positive)
    unfold pack
    dsimp only
    rw [exponentBias_binary64]
    -- A number that is too large becomes infinite. Otherwise the leading digit is left out if the
    -- digits are complete, and kept below the least normal number.
    split
    · rfl
    · next hexponent =>
      split
      · apply zero_compare_unpack_normal
        · omega
        · omega
      · next hdigits =>
        have hlog : m.log2 < 1 + 52 := (Nat.log2_lt hpos.ne').2 hm
        have hlog : m.log2 < 52 := by
          change ¬ m.log2 + 1 = 1 + 52 at hdigits
          omega
        exact zero_compare_unpack_subnormal hpos ((Nat.log2_lt hpos.ne').1 hlog)

end Words

section Floats

variable {a b : Float}

theorem unpack_zero : (0 : Float).toModel.unpack = .zero .positive := rfl

theorem unpack_add (a b : Float) : (a + b).toModel.unpack =
    unpack .binary64 (pack .binary64 (a.toModel.unpack.add .binary64 b.toModel.unpack)) := rfl

theorem pos_iff : 0 < a ↔ IsPositive .binary64 a.toModel.unpack := by
  rw [lt_iff, unpack_zero]
  exact ⟨isPositive_unpack, IsPositive.zero_compare⟩

theorem nonneg_iff :
    0 ≤ a ↔ (∃ s, a.toModel.unpack = .zero s) ∨ IsPositive .binary64 a.toModel.unpack := by
  have hle : 0 ≤ a ↔ (UnpackedFloat.zero .positive).le a.toModel.unpack := by
    change decide ((0 : Float).toModel.unpack.le a.toModel.unpack = true) = true ↔ _
    rw [unpack_zero, decide_eq_true_iff]
  rw [hle, ← pos_iff, lt_iff, unpack_zero]
  cases a.toModel.unpack with
  | infinity t => cases t <;> simp [UnpackedFloat.le, UnpackedFloat.compare]
  | finite t => cases t <;> simp [UnpackedFloat.le, UnpackedFloat.compare]
  | _ => simp [UnpackedFloat.le, UnpackedFloat.compare]

theorem beq_self_of_nonneg (ha : 0 ≤ a) : (a == a) = true := by
  change (a.toModel.unpack.compare a.toModel.unpack == some .eq) = true
  rcases nonneg_iff.1 ha with ⟨s, hs⟩ | ha
  · rw [hs]
    rfl
  · cases h : a.toModel.unpack <;> rw [h] at ha <;> cases ha
    · rfl
    · simp [UnpackedFloat.compare]

theorem add_pos_of_pos_of_nonneg (ha : 0 < a) (hb : 0 ≤ b) : 0 < a + b := by
  rw [pos_iff, unpack_add]
  rw [pos_iff] at ha
  apply isPositive_unpack_pack
  rcases nonneg_iff.1 hb with ⟨s, hs⟩ | hb
  · rw [hs]
    exact ha.add_zero
  · exact ha.add hb

theorem add_pos_of_nonneg_of_pos (ha : 0 ≤ a) (hb : 0 < b) : 0 < a + b := by
  rw [pos_iff, unpack_add]
  rw [pos_iff] at hb
  apply isPositive_unpack_pack
  rcases nonneg_iff.1 ha with ⟨s, hs⟩ | ha
  · rw [hs]
    exact hb.zero_add
  · exact ha.add hb

theorem add_nonneg (ha : 0 ≤ a) (hb : 0 ≤ b) : 0 ≤ a + b := by
  rcases nonneg_iff.1 ha with ⟨s, hs⟩ | hpos
  · rcases nonneg_iff.1 hb with ⟨t, ht⟩ | hpos
    · apply nonneg_iff.2
      left
      rw [unpack_add, hs, ht]
      cases s <;> cases t <;> exact ⟨_, rfl⟩
    · have hsum := add_pos_of_nonneg_of_pos ha (pos_iff.2 hpos)
      exact nonneg_iff.2 (.inr (pos_iff.1 hsum))
  · have hsum := add_pos_of_pos_of_nonneg (pos_iff.2 hpos) hb
    exact nonneg_iff.2 (.inr (pos_iff.1 hsum))

instance : NonnegativeSums Float where
  zero_nonneg := nonneg_iff.2 (.inl ⟨_, unpack_zero⟩)
  nonneg_of_pos ha := nonneg_iff.2 (.inr (pos_iff.1 ha))
  beq_self := beq_self_of_nonneg
  add_nonneg := add_nonneg
  add_pos_of_pos_of_nonneg := add_pos_of_pos_of_nonneg
  add_pos_of_nonneg_of_pos := add_pos_of_nonneg_of_pos

end Floats

end GraphTransport.Binary64
