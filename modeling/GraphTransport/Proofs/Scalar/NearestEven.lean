import Mathlib.Algebra.Order.Floor.Ring
import Mathlib.Data.Int.Log
import Mathlib.Data.Rat.Floor
import Mathlib.Order.Monotone.Odd
import Mathlib.Tactic.FieldSimp
import Mathlib.Tactic.Positivity
import GraphTransport.Proofs.Scalar.Rounding

namespace GraphTransport

def roundEven (a : ℚ) : ℤ :=
  if 2 * Int.fract a < 1 then ⌊a⌋
  else if 1 < 2 * Int.fract a then ⌊a⌋ + 1
  else ⌊a⌋ + ⌊a⌋ % 2

theorem roundEven_intCast (m : ℤ) : roundEven m = m := by
  simp [roundEven]

theorem floor_le_roundEven (a : ℚ) : ⌊a⌋ ≤ roundEven a := by
  unfold roundEven
  split_ifs <;> omega

theorem roundEven_le (a : ℚ) : roundEven a ≤ ⌊a⌋ + 1 := by
  unfold roundEven
  split_ifs <;> omega

theorem roundEven_mono {a b : ℚ} (hab : a ≤ b) : roundEven a ≤ roundEven b := by
  rcases (Int.floor_le_floor hab).lt_or_eq with hlt | heq
  · exact (roundEven_le a).trans ((Int.add_one_le_of_lt hlt).trans (floor_le_roundEven b))
  · have hfract : Int.fract a ≤ Int.fract b := by
      rw [Int.fract, Int.fract, heq]
      exact sub_le_sub_right hab _
    unfold roundEven
    rw [heq]
    split_ifs <;> first | omega | linarith

theorem roundEven_neg (a : ℚ) : roundEven (-a) = -roundEven a := by
  by_cases ha : Int.fract a = 0
  · obtain ⟨m, rfl⟩ := Int.fract_eq_zero_iff.1 ha
    rw [← Int.cast_neg, roundEven_intCast, roundEven_intCast]
  · have hfract : Int.fract (-a) = 1 - Int.fract a := Int.fract_neg ha
    have hfloor : ⌊-a⌋ = -⌊a⌋ - 1 := by
      have hsum : (⌊-a⌋ : ℚ) = -⌊a⌋ - 1 := by
        have h₁ := Int.floor_add_fract a
        have h₂ := Int.floor_add_fract (-a)
        linarith
      exact_mod_cast hsum
    unfold roundEven
    rw [hfract, hfloor]
    split_ifs <;> first | omega | linarith

def spacing (p : Nat) (a : ℚ) : ℚ := 2 ^ (Int.log 2 |a| + 1 - p)

def nearestEven (p : Nat) (a : ℚ) : ℚ := roundEven (a / spacing p a) * spacing p a

variable {p : Nat} {a : ℚ}

theorem spacing_pos (p : Nat) (a : ℚ) : 0 < spacing p a := zpow_pos two_pos _

theorem nearestEven_neg (a : ℚ) : nearestEven p (-a) = -nearestEven p a := by
  rw [nearestEven, nearestEven, spacing, spacing, abs_neg, neg_div, roundEven_neg, Int.cast_neg,
    neg_mul]

theorem nearestEven_of_div_eq {m : ℤ} (h : a / spacing p a = m) : nearestEven p a = a := by
  rw [nearestEven, h, roundEven_intCast, ← h, div_mul_cancel₀ _ (spacing_pos p a).ne']

theorem nearestEven_zero (p : Nat) : nearestEven p 0 = 0 :=
  nearestEven_of_div_eq (m := 0) (by simp)

theorem abs_lt_two_zpow_log (a : ℚ) : |a| < 2 ^ (Int.log 2 |a| + 1) :=
  Int.lt_zpow_succ_log_self one_lt_two |a|

theorem two_zpow_log_le (ha : a ≠ 0) : 2 ^ Int.log 2 |a| ≤ |a| :=
  Int.zpow_log_le_self one_lt_two (abs_pos.2 ha)

theorem nearestEven_mul_zpow (hp : 0 < p) {m : ℤ} (hm : |m| ≤ 2 ^ p) (e : ℤ) :
    nearestEven p (m * 2 ^ e) = m * 2 ^ e := by
  by_cases hm₀ : m = 0
  · exact nearestEven_of_div_eq (m := 0) (by simp [hm₀])
  have htwo : (2 : ℚ) ^ e ≠ 0 := (zpow_pos two_pos e).ne'
  have ha : (m * 2 ^ e : ℚ) ≠ 0 := mul_ne_zero (Int.cast_ne_zero.2 hm₀) htwo
  have habs : |(m * 2 ^ e : ℚ)| = (|m| : ℤ) * 2 ^ e := by
    rw [abs_mul, abs_of_pos (zpow_pos (two_pos (α := ℚ)) e), Int.cast_abs]
  by_cases hcoarse : Int.log 2 |(m * 2 ^ e : ℚ)| + 1 - p ≤ e
  · obtain ⟨n, hn⟩ := Int.eq_ofNat_of_zero_le (sub_nonneg.2 hcoarse)
    refine nearestEven_of_div_eq (m := m * 2 ^ n) ?_
    rw [spacing, mul_div_assoc, ← zpow_sub₀ two_ne_zero, hn]
    push_cast
    rfl
  · -- The significand takes one bit more than fits, so it is a power of two.
    have hlarge : (2 : ℚ) ^ ((p : ℤ) + e) ≤ (|m| : ℤ) * 2 ^ e := by
      rw [← habs]
      refine le_trans (zpow_le_zpow_right₀ one_le_two ?_) (two_zpow_log_le ha)
      omega
    have hpow : |m| = 2 ^ p := by
      rw [zpow_add₀ two_ne_zero, zpow_natCast] at hlarge
      exact le_antisymm hm (by exact_mod_cast le_of_mul_le_mul_right hlarge (zpow_pos two_pos e))
    have hlog : Int.log 2 |(m * 2 ^ e : ℚ)| = p + e := by
      rw [habs, hpow, Int.cast_pow, Int.cast_ofNat, ← zpow_natCast, ← zpow_add₀ two_ne_zero]
      exact Int.log_zpow one_lt_two _
    obtain ⟨k, rfl⟩ : 2 ∣ m := by
      rw [← dvd_abs, hpow]
      exact dvd_pow_self 2 hp.ne'
    refine nearestEven_of_div_eq (m := k) ?_
    rw [spacing, hlog, show (p : ℤ) + e + 1 - p = e + 1 by ring, zpow_add_one₀ two_ne_zero]
    push_cast
    field_simp

theorem nearestEven_zpow (hp : 0 < p) (e : ℤ) : nearestEven p (2 ^ e) = 2 ^ e := by
  have h := nearestEven_mul_zpow hp (m := 1) (by simp [one_le_pow₀]) e
  rwa [Int.cast_one, one_mul] at h

theorem two_pow_mul_spacing (p : Nat) (a : ℚ) :
    2 ^ p * spacing p a = 2 ^ (Int.log 2 |a| + 1) := by
  rw [spacing, ← zpow_natCast, ← zpow_add₀ two_ne_zero]
  congr 1
  ring

theorem abs_roundEven_div_le (p : Nat) (a : ℚ) : |roundEven (a / spacing p a)| ≤ 2 ^ p := by
  have hlt : |a| ≤ 2 ^ p * spacing p a :=
    (abs_lt_two_zpow_log a).le.trans_eq (two_pow_mul_spacing p a).symm
  obtain ⟨hlo, hhi⟩ := abs_le.1 hlt
  rw [abs_le]
  constructor
  · have h : ((-2 ^ p : ℤ) : ℚ) ≤ a / spacing p a := by
      rw [le_div_iff₀ (spacing_pos p a)]
      push_cast
      linarith
    exact (roundEven_intCast _).symm.trans_le (roundEven_mono h)
  · have h : a / spacing p a ≤ ((2 ^ p : ℤ) : ℚ) := by
      rw [div_le_iff₀ (spacing_pos p a)]
      push_cast
      exact hhi
    exact (roundEven_mono h).trans_eq (roundEven_intCast _)

theorem nearestEven_nearestEven (hp : 0 < p) (a : ℚ) :
    nearestEven p (nearestEven p a) = nearestEven p a :=
  nearestEven_mul_zpow hp (abs_roundEven_div_le p a) _

theorem nearestEven_le_of_log_eq {b : ℚ} (hab : a ≤ b) (hlog : Int.log 2 |a| = Int.log 2 |b|) :
    nearestEven p a ≤ nearestEven p b := by
  have hspacing : spacing p a = spacing p b := by rw [spacing, spacing, hlog]
  rw [nearestEven, nearestEven, hspacing]
  have hround := roundEven_mono (div_le_div_of_nonneg_right hab (spacing_pos p b).le)
  exact mul_le_mul_of_nonneg_right (Int.cast_le.2 hround) (spacing_pos p b).le

theorem nearestEven_nonneg (ha : 0 ≤ a) : 0 ≤ nearestEven p a := by
  have hround := roundEven_mono (div_nonneg ha (spacing_pos p a).le)
  rw [← Int.cast_zero, roundEven_intCast] at hround
  exact mul_nonneg (Int.cast_nonneg hround) (spacing_pos p a).le

theorem nearestEven_mono (hp : 0 < p) : Monotone (nearestEven p) := by
  refine monotone_of_odd_of_monotoneOn_nonneg nearestEven_neg fun a ha b hb hab ↦ ?_
  rcases (show 0 ≤ a from ha).lt_or_eq with hpos | rfl
  · have hlog : Int.log 2 |a| ≤ Int.log 2 |b| :=
      Int.log_mono_right (abs_pos.2 hpos.ne') (abs_le_abs_of_nonneg hpos.le hab)
    rcases hlog.lt_or_eq with hlt | heq
    · -- A power of two lies between the two numbers, and it is not rounded.
      have hb₀ : 0 < b := hpos.trans_le hab
      have hlower : nearestEven p a ≤ 2 ^ Int.log 2 |b| := by
        have hround := (le_abs_self _).trans (abs_roundEven_div_le p a)
        calc nearestEven p a ≤ 2 ^ p * spacing p a :=
              mul_le_mul_of_nonneg_right (by exact_mod_cast hround) (spacing_pos p a).le
          _ = 2 ^ (Int.log 2 |a| + 1) := two_pow_mul_spacing p a
          _ ≤ 2 ^ Int.log 2 |b| := zpow_le_zpow_right₀ one_le_two (Int.add_one_le_of_lt hlt)
      have hpower := nearestEven_zpow hp (Int.log 2 |b|)
      refine hlower.trans (hpower.symm.trans_le (nearestEven_le_of_log_eq ?_ ?_))
      · exact (two_zpow_log_le hb₀.ne').trans_eq (abs_of_pos hb₀)
      · rw [abs_of_pos (zpow_pos two_pos _)]
        exact Int.log_zpow one_lt_two _
    · exact nearestEven_le_of_log_eq hab heq
  · exact (nearestEven_zero p).trans_le (nearestEven_nonneg hab)

theorem le_nearestEven (hp : 0 < p) {b : ℚ} (ha : nearestEven p a = a) (hab : a ≤ b) :
    a ≤ nearestEven p b :=
  ha.symm.trans_le (nearestEven_mono hp hab)

theorem nearestEven_le (hp : 0 < p) {b : ℚ} (hb : nearestEven p b = b) (hab : a ≤ b) :
    nearestEven p a ≤ b :=
  (nearestEven_mono hp hab).trans_eq hb

theorem log_two_mul (ha : a ≠ 0) : Int.log 2 |2 * a| = Int.log 2 |a| + 1 := by
  have habs : |2 * a| = 2 * |a| := by rw [abs_mul, abs_two]
  have hpos : 0 < 2 * |a| := mul_pos two_pos (abs_pos.2 ha)
  rw [habs]
  apply le_antisymm
  · have hlt : 2 * |a| < 2 ^ (Int.log 2 |a| + 1 + 1) := by
      rw [zpow_add_one₀ two_ne_zero (Int.log 2 |a| + 1), mul_comm]
      exact mul_lt_mul_of_pos_right (abs_lt_two_zpow_log a) two_pos
    exact Int.lt_add_one_iff.1 ((Int.lt_zpow_iff_log_lt one_lt_two hpos).1 hlt)
  · refine (Int.zpow_le_iff_le_log one_lt_two hpos).1 ?_
    rw [Nat.cast_ofNat, zpow_add_one₀ two_ne_zero, mul_comm]
    exact mul_le_mul_of_nonneg_left (two_zpow_log_le ha) two_pos.le

theorem nearestEven_two_mul (a : ℚ) : nearestEven p (2 * a) = 2 * nearestEven p a := by
  rcases eq_or_ne a 0 with rfl | ha
  · rw [mul_zero, nearestEven_zero, mul_zero]
  · have hspacing : spacing p (2 * a) = 2 * spacing p a := by
      rw [spacing, spacing, log_two_mul ha, ← zpow_one_add₀ two_ne_zero]
      congr 1
      ring
    rw [nearestEven, nearestEven, hspacing, mul_div_mul_left _ _ two_ne_zero]
    ring

/-- Double precision, but for the limits of its exponents. -/
def Rounding.binary64 : Rounding ℚ where
  round := nearestEven 53
  round_round := nearestEven_nearestEven (by decide)
  round_neg := nearestEven_neg
  mono := nearestEven_mono (by decide)

theorem Rounding.doubles_binary64 : Rounding.binary64.Doubles where
  round_two_mul := nearestEven_two_mul
  round_two := nearestEven_zpow (by decide) 1

end GraphTransport
