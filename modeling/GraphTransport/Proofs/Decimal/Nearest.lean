import Mathlib.Order.Monotone.Basic
import Mathlib.Tactic.LinearCombination
import GraphTransport.Proofs.Decimal.Layout

namespace GraphTransport.Decimal

open Float.Model

def significand (w : Nat) : Nat := if w / 2 ^ 52 = 0 then w else 2 ^ 52 + w % 2 ^ 52

def binaryExponent (w : Nat) : Int := minExponent + (w / 2 ^ 52 - 1 : Nat)

def finiteWords : Nat := 2047 * 2 ^ 52

def isBelow (a : ℚ) (w : Nat) : Bool :=
  if w % 2 = 0 then a ≤ upperEnd (significand w) (binaryExponent w)
  else a < upperEnd (significand w) (binaryExponent w)

/-- The least number from `low` on that has a property, if it is one of the first `2 ^ k` and all
numbers behind it have the property. -/
def bisect (p : Nat → Bool) : Nat → Nat → Nat
  | 0, low => low
  | k + 1, low => if p (low + 2 ^ k - 1) then bisect p k low else bisect p k (low + 2 ^ k)

section Words

variable {w : Nat} {a : ℚ}

theorem significand_mod_two (w : Nat) : significand w % 2 = w % 2 := by
  unfold significand
  split_ifs <;> omega

theorem significand_lt (w : Nat) : significand w < 2 ^ 53 := by
  unfold significand
  split_ifs <;> omega

theorem lowerEnd_succ_of_same_spacing {m : Nat} {q : Int} (h : m + 1 = 2 ^ 52 → q ≤ minExponent) :
    lowerEnd (m + 1) q = upperEnd m q := by
  rw [lowerEnd, upperEnd, if_neg fun hm ↦ (h hm.1).not_gt hm.2]
  push_cast
  ring

theorem lowerEnd_of_doubled_spacing {m : Nat} {q : Int} (hm : m + 1 = 2 ^ 53)
    (hq : minExponent < q + 1) : lowerEnd (2 ^ 52) (q + 1) = upperEnd m q := by
  have hcast : (m : ℚ) + 1 = 2 ^ 53 := by exact_mod_cast hm
  have htwo : (2 : ℚ) ^ (q + 1 - 2) = 2 * 2 ^ (q - 2) := by
    rw [← zpow_one_add₀ two_ne_zero]
    congr 1
    ring
  rw [lowerEnd, upperEnd, if_pos ⟨rfl, hq⟩, htwo]
  push_cast
  linear_combination 4 * 2 ^ (q - 2) * -hcast

theorem significand_succ (w : Nat) :
    significand (w + 1) = significand w + 1 ∧ binaryExponent (w + 1) = binaryExponent w ∧
      (significand w + 1 = 2 ^ 52 → binaryExponent w ≤ minExponent) ∨
    significand w + 1 = 2 ^ 53 ∧ significand (w + 1) = 2 ^ 52 ∧
      binaryExponent (w + 1) = binaryExponent w + 1 ∧ minExponent < binaryExponent w + 1 := by
  unfold significand binaryExponent
  by_cases hlast : w % 2 ^ 52 + 1 = 2 ^ 52 ∧ w / 2 ^ 52 ≠ 0
  · obtain ⟨hlast, hsub⟩ := hlast
    right
    rw [if_neg hsub, if_neg (by omega)]
    omega
  · left
    split_ifs <;> omega

/-- Where the numbers that round to a double end, those that round to the next one begin. -/
theorem lowerEnd_succ (w : Nat) : lowerEnd (significand (w + 1)) (binaryExponent (w + 1)) =
    upperEnd (significand w) (binaryExponent w) := by
  obtain ⟨hm, hq, hsame⟩ | ⟨hlast, hm, hq, hmin⟩ := significand_succ w
  · rw [hm, hq]
    exact lowerEnd_succ_of_same_spacing hsame
  · rw [hm, hq]
    exact lowerEnd_of_doubled_spacing hlast hmin

theorem upperEnd_strictMono : StrictMono fun w ↦ upperEnd (significand w) (binaryExponent w) := by
  apply strictMono_nat_of_lt_succ
  intro w
  rw [← lowerEnd_succ]
  exact (lowerEnd_lt _ _).trans (lt_upperEnd _ _)

theorem isBelow_mono {v : Nat} (hvw : v ≤ w) (hv : isBelow a v) : isBelow a w := by
  rcases hvw.lt_or_eq with hlt | rfl
  · have hend := upperEnd_strictMono hlt
    have hle : a ≤ upperEnd (significand v) (binaryExponent v) := by
      unfold isBelow at hv
      split_ifs at hv <;> simp only [decide_eq_true_eq] at hv
      · exact hv
      · exact hv.le
    unfold isBelow
    split_ifs <;> simp only [decide_eq_true_eq]
    · exact hle.trans hend.le
    · exact hle.trans_lt hend
  · exact hv

theorem isBelow_of_roundsTo (h : RoundsTo (significand w) (binaryExponent w) a) :
    isBelow a w := by
  unfold RoundsTo at h
  rw [significand_mod_two] at h
  unfold isBelow
  split_ifs at h ⊢ <;> simp only [decide_eq_true_eq] <;> exact h.2

theorem not_isBelow_of_roundsTo {v : Nat} (hv : v < w)
    (h : RoundsTo (significand w) (binaryExponent w) a) : ¬ isBelow a v := by
  obtain ⟨w, rfl⟩ : ∃ k, w = k + 1 := ⟨w - 1, by omega⟩
  intro hbelow
  have hbelow := isBelow_mono (Nat.le_of_lt_succ hv) hbelow
  unfold RoundsTo at h
  rw [significand_mod_two, lowerEnd_succ] at h
  unfold isBelow at hbelow
  split_ifs at h hbelow <;> simp only [decide_eq_true_eq] at hbelow
  · omega
  · exact absurd hbelow (not_lt.2 h.1)
  · exact absurd hbelow (not_le.2 h.1)
  · omega

theorem bisect_eq {p : Nat → Bool} (hmono : ∀ v n, v ≤ n → p v → p n) {n : Nat} (hn : p n)
    (hmin : ∀ v < n, ¬ p v) (k low : Nat) (hlow : low ≤ n) (hlt : n < low + 2 ^ k) :
    bisect p k low = n := by
  induction k generalizing low with
  | zero =>
    simp only [bisect]
    omega
  | succ k ih =>
    rw [pow_succ] at hlt
    have hpos : 0 < 2 ^ k := Nat.pow_pos two_pos
    simp only [bisect]
    split_ifs with h
    · have hle : ¬ low + 2 ^ k - 1 < n := fun hlt ↦ hmin _ hlt h
      exact ih low hlow (by omega)
    · have hgt : ¬ n ≤ low + 2 ^ k - 1 := fun hle ↦ h (hmono _ _ hle hn)
      exact ih (low + 2 ^ k) (by omega) (by omega)

end Words

section Doubles

theorem unpackExponent_eq_iff (bits : UInt64) :
    @UnpackedFloat.unpackExponent Format.binary64 bits.toBitVec = -1#_ ↔
      bits.toNat / 2 ^ 52 % 2 ^ 11 = 2047 := by
  rw [← BitVec.toNat_inj]
  simp [UnpackedFloat.unpackExponent, Nat.shiftRight_eq_div_pow]

theorem isFinite_unpack (b : BitVec Format.binary64.numBits) :
    (UnpackedFloat.unpack .binary64 b).isFinite ↔ UnpackedFloat.unpackExponent b ≠ -1#_ := by
  unfold UnpackedFloat.unpack
  by_cases he : UnpackedFloat.unpackExponent b = -1#_
  · refine iff_of_false ?_ (not_not_intro he)
    dsimp only
    rw [if_pos he]
    by_cases hm : UnpackedFloat.unpackMantissa b = 0#_
    · rw [if_pos hm]
      exact Bool.false_ne_true
    · rw [if_neg hm]
      exact Bool.false_ne_true
  · refine iff_of_true ?_ he
    dsimp only
    rw [if_neg he]
    by_cases hz : UnpackedFloat.unpackExponent b = 0#_
    · rw [if_pos hz]
      by_cases hm : UnpackedFloat.unpackMantissa b = 0#_
      · rw [dif_pos hm]
        rfl
      · rw [dif_neg hm]
        rfl
    · rw [if_neg hz]
      rfl

theorem isFinite_iff (x : Float) : x.isFinite ↔ x.toBits.toNat / 2 ^ 52 % 2 ^ 11 ≠ 2047 := by
  rw [ne_eq, ← unpackExponent_eq_iff]
  exact isFinite_unpack x.toBits.toBitVec

theorem toNat_ofNat_word (negative : Bool) {w : Nat} (hw : w < finiteWords) :
    (UInt64.ofNat (w + if negative then 2 ^ 63 else 0)).toNat =
      w + if negative then 2 ^ 63 else 0 := by
  unfold finiteWords at hw
  rw [UInt64.toNat_ofNat']
  split <;> omega

theorem valid_ofNat_word (negative : Bool) {w : Nat} (hw : w < finiteWords) :
    Format.binary64.Valid (UInt64.ofNat (w + if negative then 2 ^ 63 else 0)).toBitVec := by
  refine ⟨fun he _ ↦ ?_⟩
  rw [unpackExponent_eq_iff, toNat_ofNat_word negative hw] at he
  unfold finiteWords at hw
  split at he <;> omega

def ofWord? (negative : Bool) (w : Nat) : Option Float :=
  if hw : w < finiteWords then some (.ofModel ⟨_, valid_ofNat_word negative hw⟩) else none

/-- The double that is nearest to what a literal stands for, unless it is too large. -/
def readNearest (l : Literal) : Option Float :=
  ofWord? l.negative (bisect (isBelow l.magnitude) 63 0)

theorem isFinite_of_readNearest {l : Literal} {x : Float} (h : readNearest l = some x) :
    x.isFinite := by
  unfold readNearest ofWord? at h
  by_cases hw : bisect (isBelow l.magnitude) 63 0 < finiteWords
  · rw [dif_pos hw] at h
    rw [← Option.some.inj h, isFinite_iff]
    refine ne_of_eq_of_ne (congrArg (· / 2 ^ 52 % 2 ^ 11) (toNat_ofNat_word l.negative hw)) ?_
    unfold finiteWords at hw
    split <;> omega
  · rw [dif_neg hw] at h
    cases h

theorem toBits_inj {x y : Float} (h : x.toBits = y.toBits) : x = y := by
  obtain ⟨⟨b, hb⟩⟩ := x
  obtain ⟨⟨c, hc⟩⟩ := y
  obtain rfl : b = c := h
  rfl

theorem ofWord?_toBits {x : Float} (hx : x.isFinite) :
    ofWord? (2 ^ 63 ≤ x.toBits.toNat) (x.toBits.toNat % 2 ^ 63) = some x := by
  have hlt := x.toBits.toNat_lt
  rw [isFinite_iff] at hx
  have hw : x.toBits.toNat % 2 ^ 63 < finiteWords := by
    unfold finiteWords
    omega
  have hbits : UInt64.ofNat (x.toBits.toNat % 2 ^ 63 +
      if decide (2 ^ 63 ≤ x.toBits.toNat) then 2 ^ 63 else 0) = x.toBits := by
    rw [← UInt64.toNat_inj, toNat_ofNat_word _ hw]
    split_ifs with hsign <;> simp only [decide_eq_true_eq] at hsign <;> omega
  rw [ofWord?, dif_pos hw]
  exact congrArg some (toBits_inj hbits)

theorem ofFloat_eq {x : Float} (hx : x.isFinite) : Binary.ofFloat x =
    .finite (2 ^ 63 ≤ x.toBits.toNat) (significand (x.toBits.toNat % 2 ^ 63))
      (binaryExponent (x.toBits.toNat % 2 ^ 63)) := by
  rw [isFinite_iff] at hx
  have hexponent : x.toBits.toNat % 2 ^ 63 / 2 ^ 52 = x.toBits.toNat / 2 ^ 52 % 2 ^ 11 := by omega
  have hfraction : x.toBits.toNat % 2 ^ 63 % 2 ^ 52 = x.toBits.toNat % 2 ^ 52 := by omega
  unfold Binary.ofFloat Binary.ofBits significand binaryExponent
  simp only [Nat.pow_eq, hexponent, hfraction]
  rw [if_neg hx]
  split_ifs with hzero
  · have hsub : x.toBits.toNat % 2 ^ 63 = x.toBits.toNat % 2 ^ 52 := by omega
    rw [hzero, hsub]
    rfl
  · rfl

theorem bisect_shortest (tie : Tie) {w : Nat} (hlt : w < 2 ^ 63) :
    bisect (isBelow (shortest tie (significand w) (binaryExponent w)).value) 63 0 = w := by
  rcases Nat.eq_zero_or_pos (significand w) with hzero | hpos
  · have hw : w = 0 := by
      unfold significand at hzero
      split_ifs at hzero <;> omega
    have hvalue (q : Int) : (shortest tie 0 q).value = 0 := by simp [shortest, Scaled.value]
    have hend : 0 ≤ upperEnd (significand 0) (binaryExponent 0) := by
      unfold upperEnd
      positivity
    have hbelow : isBelow 0 0 := by simpa [isBelow] using hend
    rw [hzero, hvalue, hw]
    exact bisect_eq (fun v n ↦ isBelow_mono) hbelow (by omega) 63 0 (by omega) (by omega)
  · have hround := roundsTo_shortest hpos (significand_lt w) (binaryExponent w) tie
    exact bisect_eq (fun v n ↦ isBelow_mono) (isBelow_of_roundsTo hround)
      (fun v hv ↦ not_isBelow_of_roundsTo hv hround) 63 0 (by omega) (by omega)

theorem readNearest_literal {x : Float} (hx : x.isFinite) (style : Style) :
    ∃ negative m q, Binary.ofFloat x = .finite negative m q ∧
      readNearest (style.literal negative m q) = some x := by
  refine ⟨_, _, _, ofFloat_eq hx, ?_⟩
  rw [readNearest, style.negative_literal, style.magnitude_literal,
    bisect_shortest _ (Nat.mod_lt _ (by decide))]
  exact ofWord?_toBits hx

theorem ofFloat_ne_finite {x : Float} (hx : ¬ x.isFinite) (negative : Bool) (m : Nat) (q : Int) :
    Binary.ofFloat x ≠ .finite negative m q := by
  rw [isFinite_iff, not_not] at hx
  unfold Binary.ofFloat Binary.ofBits
  simp only [Nat.pow_eq]
  rw [if_pos hx]
  split_ifs <;> rintro ⟨⟩

end Doubles

end GraphTransport.Decimal
