import Mathlib
import GraphTransport.Proofs.Graph.Edges
import GraphTransport.Scalar.Binary64

namespace GraphTransport.Binary64

open Float.Model (Format UnpackedFloat)
open Float.Model.UnpackedFloat

variable {spec : Format}

theorem compare_swap (u v : UnpackedFloat) : v.compare u = (u.compare v).map Ordering.swap := by
  cases u with
  | notANumber => cases v <;> rfl
  | infinity s =>
    cases v with
    | infinity t => cases s <;> cases t <;> rfl
    | _ => cases s <;> rfl
  | zero s =>
    cases v with
    | finite t => cases t <;> rfl
    | infinity t => cases t <;> rfl
    | _ => rfl
  | finite s m e h =>
    cases v with
    | finite t m' e' h' =>
      cases s <;> cases t <;> simp [UnpackedFloat.compare, Ordering.swap_then, Int.compare_swap,
        Nat.compare_swap]
    | infinity t => cases s <;> cases t <;> rfl
    | _ => cases s <;> rfl

theorem compare_eq_none_iff (u v : UnpackedFloat) :
    u.compare v = none ↔ u = .notANumber ∨ v = .notANumber := by
  cases u with
  | notANumber => simp [UnpackedFloat.compare]
  | infinity s =>
    cases v with
    | infinity t => simp [UnpackedFloat.compare]
    | _ => cases s <;> simp [UnpackedFloat.compare]
  | zero s =>
    cases v with
    | finite t => cases t <;> simp [UnpackedFloat.compare]
    | infinity t => cases t <;> simp [UnpackedFloat.compare]
    | _ => simp [UnpackedFloat.compare]
  | finite s m e h =>
    cases v with
    | finite t m' e' h' => cases s <;> cases t <;> simp [UnpackedFloat.compare]
    | infinity t => cases s <;> cases t <;> simp [UnpackedFloat.compare]
    | _ => cases s <;> simp [UnpackedFloat.compare]

theorem abs_eq_of_compare_eq {u v : UnpackedFloat} (h : u.abs.compare v.abs = some .eq) :
    u.abs = v.abs := by
  cases u <;> cases v <;>
    simp_all [UnpackedFloat.abs, UnpackedFloat.compare, Ordering.then_eq_eq]

variable {e e' : BitVec spec.exponentBits} {m m' : BitVec spec.mantissaBitsWithoutImplicit}

theorem unpackSign_packComponents {s : Sign} :
    unpackSign (packComponents spec s e m) = s.toBitVec := by
  ext i hi
  obtain rfl : i = 0 := by omega
  simp [unpackSign, packComponents, BitVec.getLsbD_append, BitVec.getElem_append]

theorem toNat_one_append : (1#1 ++ m).toNat =
    2 ^ spec.mantissaBitsWithoutImplicit + m.toNat := by
  rw [BitVec.toNat_append, ← Nat.shiftLeft_add_eq_or_of_lt m.isLt]
  simp [Nat.shiftLeft_eq]

theorem exists_pack_abs (u : UnpackedFloat) :
    ∃ e m, pack spec u.abs = packComponents spec .positive e m := by
  cases u with
  | notANumber => exact ⟨_, _, rfl⟩
  | infinity s => exact ⟨_, _, rfl⟩
  | zero s => exact ⟨_, _, rfl⟩
  | finite s m e h =>
    dsimp only [UnpackedFloat.abs]
    unfold pack
    dsimp only
    split
    · exact ⟨_, _, rfl⟩
    · split
      · exact ⟨_, _, rfl⟩
      · exact ⟨_, _, rfl⟩

theorem abs_unpack : (unpack spec (packComponents spec .positive e m)).abs =
    unpack spec (packComponents spec .positive e m) := by
  simp only [unpack, unpackMantissa_packComponents, unpackExponent_packComponents,
    unpackSign_packComponents]
  split
  · split <;> rfl
  · split
    · split <;> rfl
    · rfl

def magnitudeBits (spec : Format) : UnpackedFloat → BitVec spec.numBits
  | .notANumber => packedNaN spec
  | .infinity _ => packedInfinity spec .positive
  | .zero _ => packedZero spec .positive
  | .finite _ m e _ =>
    let exponent : Nat := if m < 2 ^ spec.mantissaBitsWithoutImplicit then 0
      else (e + (spec.exponentBias + spec.mantissaBitsWithoutImplicit)).toNat
    packComponents spec .positive (BitVec.ofNat _ exponent) (BitVec.ofNat _ m)

theorem magnitudeBits_unpack (hv : spec.Valid (packComponents spec .positive e m)) :
    magnitudeBits spec (unpack spec (packComponents spec .positive e m)) =
      packComponents spec .positive e m := by
  have hnan := hv.eq_packedNaN
  simp only [unpackMantissa_packComponents, unpackExponent_packComponents] at hnan
  simp only [unpack, unpackMantissa_packComponents, unpackExponent_packComponents,
    unpackSign_packComponents]
  split
  · next he =>
    split
    · next hm => rw [he, hm]; rfl
    · next hm => exact (hnan he hm).symm
  · split
    · next he =>
      split
      · next hm => rw [he, hm]; rfl
      · rw [magnitudeBits, if_pos m.isLt, he, BitVec.ofNat_toNat, BitVec.setWidth_eq]
    · have hlarge : ¬ (1#1 ++ m).toNat < 2 ^ spec.mantissaBitsWithoutImplicit := by
        rw [toNat_one_append]
        omega
      have hmantissa : BitVec.ofNat spec.mantissaBitsWithoutImplicit (1#1 ++ m).toNat = m := by
        rw [toNat_one_append]
        apply BitVec.eq_of_toNat_eq
        simp
      rw [magnitudeBits, if_neg hlarge, hmantissa, Int.sub_add_cancel, Int.toNat_natCast,
        BitVec.ofNat_toNat, BitVec.setWidth_eq]

theorem model_abs_spec (a : Float.Model) : a.abs.unpack.abs = a.abs.unpack ∧
    magnitudeBits .binary64 a.abs.unpack = a.abs.toBits.toBitVec := by
  obtain ⟨e, m, hbits⟩ : ∃ e m, a.abs.toBits.toBitVec = packComponents .binary64 .positive e m :=
    exists_pack_abs a.unpack
  have hunpack : a.abs.unpack = unpack .binary64 (packComponents .binary64 .positive e m) :=
    congrArg (unpack .binary64) hbits
  rw [hunpack, hbits]
  exact ⟨abs_unpack, magnitudeBits_unpack (hbits ▸ a.abs.valid)⟩

theorem abs_inj {a b : Float} (h : a.abs.toModel.unpack = b.abs.toModel.unpack) :
    a.abs = b.abs := by
  have hbits : a.toModel.abs.toBits.toBitVec = b.toModel.abs.toBits.toBitVec := by
    rw [← (model_abs_spec a.toModel).2, ← (model_abs_spec b.toModel).2]
    exact congrArg _ h
  have hmodel : a.toModel.abs = b.toModel.abs := by
    have hword := UInt64.toBitVec_inj.1 hbits
    cases ha : a.toModel.abs
    cases hb : b.toModel.abs
    rw [ha, hb] at hword
    simpa using hword
  exact congrArg Float.ofModel hmodel

theorem isNaN_iff (a : Float) : a.isNaN ↔ a.toModel.unpack = .notANumber := by
  change a.toModel.unpack.isNaN = true ↔ _
  cases a.toModel.unpack <;> simp [UnpackedFloat.isNaN]

theorem lt_iff (a b : Float) :
    a < b ↔ a.toModel.unpack.compare b.toModel.unpack = some .lt := by
  change decide (a.toModel.lt b.toModel = true) = true ↔ _
  simp [Float.Model.lt, UnpackedFloat.lt]

theorem not_lt_of_isNaN {a b : Float} (h : a.isNaN ∨ b.isNaN) : ¬ a < b := by
  rw [isNaN_iff, isNaN_iff] at h
  rw [lt_iff, (compare_eq_none_iff _ _).2 h]
  simp

theorem not_lt_of_lt {a b : Float} (h : a < b) : ¬ b < a := by
  rw [lt_iff] at h ⊢
  rw [compare_swap, h]
  simp

theorem abs_eq_of_not_lt {a b : Float} (ha : ¬ a.abs.isNaN) (hb : ¬ b.abs.isNaN)
    (hab : ¬ a.abs < b.abs) (hba : ¬ b.abs < a.abs) : a.abs = b.abs := by
  rw [isNaN_iff] at ha hb
  rw [lt_iff] at hab hba
  rw [compare_swap] at hba
  have hsome := mt (compare_eq_none_iff _ _).1 (not_or.2 ⟨ha, hb⟩)
  have hcompare : a.abs.toModel.unpack.compare b.abs.toModel.unpack = some .eq := by
    cases h : a.abs.toModel.unpack.compare b.abs.toModel.unpack with
    | none => exact absurd h hsome
    | some order =>
      rw [h] at hab hba
      cases order <;> simp_all
  have ha' : a.abs.toModel.unpack.abs = a.abs.toModel.unpack := (model_abs_spec a.toModel).1
  have hb' : b.abs.toModel.unpack.abs = b.abs.toModel.unpack := (model_abs_spec b.toModel).1
  apply abs_inj
  rw [← ha', ← hb'] at hcompare ⊢
  exact abs_eq_of_compare_eq hcompare

theorem maxNum_abs_comm (a b : Float) : maxNum a.abs b.abs = maxNum b.abs a.abs := by
  unfold maxNum
  by_cases ha : a.abs.isNaN
  · by_cases hb : b.abs.isNaN
    · rw [if_pos ha, if_pos hb]
      exact abs_inj (((isNaN_iff _).1 hb).trans ((isNaN_iff _).1 ha).symm)
    · rw [if_pos ha, if_neg hb, if_neg (not_lt_of_isNaN (.inr ha))]
  · by_cases hb : b.abs.isNaN
    · rw [if_neg ha, if_pos hb, if_neg (not_lt_of_isNaN (.inr hb))]
    · rw [if_neg ha, if_neg hb]
      by_cases hab : a.abs < b.abs
      · rw [if_pos hab, if_neg (not_lt_of_lt hab)]
      · by_cases hba : b.abs < a.abs
        · rw [if_neg hab, if_pos hba]
        · rw [if_neg hab, if_neg hba]
          exact abs_eq_of_not_lt ha hb hab hba

instance : SymmetricViscosity Float := ⟨maxNum_abs_comm⟩

end GraphTransport.Binary64
