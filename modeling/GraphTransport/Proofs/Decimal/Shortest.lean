import Mathlib.Algebra.Order.Field.Power
import Mathlib.Data.Nat.Cast.Order.Field
import Mathlib.Tactic.FieldSimp
import Mathlib.Tactic.Linarith
import Mathlib.Tactic.NormNum
import Mathlib.Tactic.Positivity
import Mathlib.Tactic.Ring
import GraphTransport.Proofs.Decimal.Digits

namespace GraphTransport.Decimal

def Scaled.value (s : Scaled) : ℚ := s.digits * 10 ^ s.exponent

def lowerEnd (m : Nat) (q : Int) : ℚ :=
  (4 * m - if m = 2 ^ 52 ∧ minExponent < q then 1 else 2) * 2 ^ (q - 2)

def upperEnd (m : Nat) (q : Int) : ℚ := (4 * m + 2) * 2 ^ (q - 2)

/-- Whether a number rounds to `m * 2 ^ q`, a tie to the even significand. -/
def RoundsTo (m : Nat) (q : Int) (a : ℚ) : Prop :=
  if m % 2 = 0 then lowerEnd m q ≤ a ∧ a ≤ upperEnd m q else lowerEnd m q < a ∧ a < upperEnd m q

theorem two_zpow_eq (q : Int) : (2 : ℚ) ^ q = 4 * 2 ^ (q - 2) := by
  rw [zpow_sub₀ two_ne_zero]
  ring

section Intervals

variable {i : Interval} {c : Nat}

theorem Interval.contains_iff (hden : 0 < i.den) : i.contains c ↔
    if i.closed then (i.low / i.den : ℚ) ≤ c ∧ (c : ℚ) ≤ i.high / i.den
    else (i.low / i.den : ℚ) < c ∧ (c : ℚ) < i.high / i.den := by
  have hden : (0 : ℚ) < i.den := Nat.cast_pos.2 hden
  simp only [Interval.contains, div_le_iff₀ hden, le_div_iff₀ hden, div_lt_iff₀ hden,
    lt_div_iff₀ hden]
  split <;> simp only [Bool.and_eq_true, decide_eq_true_eq] <;> norm_cast

theorem zpow_eq_div {b : ℚ} (hb : b ≠ 0) (e : Int) : b ^ e = b ^ e.toNat / b ^ (-e).toNat := by
  rw [← zpow_natCast, ← zpow_natCast, ← zpow_sub₀ hb, Int.toNat_sub_toNat_neg]

theorem scale_shift (n den : Nat) (e : Int) :
    ((n * Nat.pow 10 (-e).toNat : Nat) / (den * Nat.pow 10 e.toNat : Nat) : ℚ) =
      n / den / 10 ^ e := by
  rw [zpow_eq_div (by norm_num)]
  simp only [Nat.pow_eq, Nat.cast_mul, Nat.cast_pow, Nat.cast_ofNat]
  field_simp

variable {m : Nat} {q : Int}

theorem scale_around (n : Nat) (q : Int) :
    ((n * Nat.pow 2 (q - 2).toNat : Nat) / (Nat.pow 2 (2 - q).toNat : Nat) : ℚ) =
      n * 2 ^ (q - 2) := by
  rw [zpow_eq_div two_ne_zero, neg_sub]
  simp only [Nat.pow_eq, Nat.cast_mul, Nat.cast_pow, Nat.cast_ofNat, mul_div_assoc]

theorem low_around (hm : 0 < m) (q : Int) :
    ((Interval.around m q).low / (Interval.around m q).den : ℚ) = lowerEnd m q := by
  refine (scale_around _ q).trans ?_
  rw [lowerEnd]
  simp only [Nat.pow_eq]
  split <;> rw [Nat.cast_sub (by omega)] <;> push_cast <;> rfl

theorem high_around (m : Nat) (q : Int) :
    ((Interval.around m q).high / (Interval.around m q).den : ℚ) = upperEnd m q := by
  refine (scale_around _ q).trans ?_
  rw [upperEnd]
  push_cast
  rfl

theorem mid_around (m : Nat) (q : Int) :
    ((Interval.around m q).mid / (Interval.around m q).den : ℚ) = m * 2 ^ q := by
  refine (scale_around _ q).trans ?_
  rw [two_zpow_eq q]
  push_cast
  ring

theorem den_around_pos (m : Nat) (q : Int) : 0 < (Interval.around m q).den :=
  Nat.pow_pos two_pos

theorem den_shift_pos (hden : 0 < i.den) (e : Int) : 0 < (i.shift e).den :=
  Nat.mul_pos hden (Nat.pow_pos (by decide))

theorem contains_shift_around (hm : 0 < m) (q p : Int) (c : Nat) :
    ((Interval.around m q).shift p).contains c ↔ RoundsTo m q (c * 10 ^ p) := by
  have hten : (0 : ℚ) < 10 ^ p := zpow_pos (by norm_num) p
  have hlow : (((Interval.around m q).shift p).low / ((Interval.around m q).shift p).den : ℚ) =
      lowerEnd m q / 10 ^ p := by
    rw [← low_around hm]
    exact scale_shift _ _ p
  have hhigh : (((Interval.around m q).shift p).high / ((Interval.around m q).shift p).den : ℚ) =
      upperEnd m q / 10 ^ p := by
    rw [← high_around]
    exact scale_shift _ _ p
  rw [Interval.contains_iff (den_shift_pos (den_around_pos m q) p), hlow, hhigh, RoundsTo,
    div_le_iff₀ hten, le_div_iff₀ hten, div_lt_iff₀ hten, lt_div_iff₀ hten]
  simp [Interval.shift, Interval.around]

theorem contains_of_nearest? {tie : Tie} (h : i.nearest? tie = some c) : i.contains c := by
  unfold Interval.nearest? at h
  cases hfloor : i.contains (i.mid / i.den) <;> cases hnext : i.contains (i.mid / i.den + 1) <;>
    simp only [hfloor, hnext] at h
  case false.false => cases h
  case false.true | true.false =>
    cases h
    assumption
  case true.true =>
    have hor : c = i.mid / i.den ∨ c = i.mid / i.den + 1 := by
      cases tie <;> split_ifs at h <;> simp_all
    rcases hor with rfl | rfl <;> assumption

theorem not_contains_of_nearest?_eq_none {tie : Tie} (h : i.nearest? tie = none) :
    ¬ i.contains (i.mid / i.den) ∧ ¬ i.contains (i.mid / i.den + 1) := by
  unfold Interval.nearest? at h
  cases hfloor : i.contains (i.mid / i.den) <;> cases hnext : i.contains (i.mid / i.den + 1) <;>
    simp only [hfloor, hnext] at h
  case false.false => simp
  case true.true => cases tie <;> split_ifs at h
  all_goals cases h

end Intervals

theorem digitCount_pos (n : Nat) : 0 < digitCount n := by
  rw [digitCount_eq]
  exact Nat.length_toDigits_pos

theorem lt_pow_digitCount (n : Nat) : n < 10 ^ digitCount n := by
  rw [digitCount_eq]
  exact (Nat.length_toDigits_le_iff (by decide) Nat.length_toDigits_pos).1 le_rfl

theorem pow_digitCount_le {n : Nat} (hn : 0 < n) : 10 ^ (digitCount n - 1) ≤ n := by
  rw [digitCount_eq]
  by_cases hone : (Nat.toDigits 10 n).length = 1
  · rw [hone]
    exact hn
  · have hpos : 0 < (Nat.toDigits 10 n).length := Nat.length_toDigits_pos
    have hlong := (Nat.length_toDigits_le_iff (n := n) (b := 10) (by decide)
      (k := (Nat.toDigits 10 n).length - 1) (by omega)).not.1 (by omega)
    exact not_lt.1 hlong

theorem ten_zpow_leadingExponent_le {num den : Nat} (hnum : 0 < num) (hden : 0 < den) :
    (10 : ℚ) ^ leadingExponent num den ≤ num / den := by
  have hden' : (0 : ℚ) < den := Nat.cast_pos.2 hden
  unfold leadingExponent
  rw [le_div_iff₀ hden']
  split_ifs with hle
  · have hquot : 0 < num / den := Nat.div_pos hle hden
    have hpow := pow_digitCount_le hquot
    have hpos := digitCount_pos (num / den)
    have hexp : ((digitCount (num / den) : Int) - 1) = (digitCount (num / den) - 1 : Nat) := by
      omega
    rw [hexp, zpow_natCast]
    have hmul := (Nat.mul_le_mul_right den hpow).trans (Nat.div_mul_le_self num den)
    exact_mod_cast hmul
  · have hinv (k : Nat) (hk : den ≤ num * 10 ^ k) : (10 : ℚ) ^ (-(k : Int)) * den ≤ num := by
      rw [zpow_neg, zpow_natCast, inv_mul_le_iff₀ (by positivity), mul_comm]
      exact_mod_cast hk
    dsimp only
    split_ifs with hpow
    · have hpos := digitCount_pos (den / num)
      have hexp : 1 - (digitCount (den / num) : Int) = -(digitCount (den / num) - 1 : Nat) := by
        omega
      rw [hexp]
      exact hinv _ hpow
    · refine hinv _ ?_
      have hlt := (Nat.div_lt_iff_lt_mul hnum).1 (lt_pow_digitCount (den / num))
      rw [Nat.mul_comm]
      exact hlt.le

section Search

variable {m : Nat} {q : Int}

theorem lt_upperEnd (m : Nat) (q : Int) : m * 2 ^ q < upperEnd m q := by
  have hpos : (0 : ℚ) < 2 ^ (q - 2) := zpow_pos two_pos _
  rw [upperEnd, two_zpow_eq q]
  linarith

theorem lowerEnd_lt (m : Nat) (q : Int) : lowerEnd m q < m * 2 ^ q := by
  have hpos : (0 : ℚ) < 2 ^ (q - 2) := zpow_pos two_pos _
  rw [lowerEnd, two_zpow_eq q]
  split_ifs <;> linarith

theorem roundsTo_of_lt_width {a w : ℚ} (hw : w < upperEnd m q - lowerEnd m q)
    (hle : a ≤ m * 2 ^ q) (hlt : m * 2 ^ q < a + w) : RoundsTo m q a ∨ RoundsTo m q (a + w) := by
  have hlow := lowerEnd_lt m q
  have hhigh := lt_upperEnd m q
  unfold RoundsTo
  by_cases ha : lowerEnd m q < a
  · left
    split_ifs <;> constructor <;> linarith
  · right
    split_ifs <;> constructor <;> linarith

/-- The grid of seventeen digits is finer than the doubles are. -/
theorem ten_zpow_lt_width (hm : m < 2 ^ 53) {e : Int} (he : (10 : ℚ) ^ e ≤ m * 2 ^ q) :
    (10 : ℚ) ^ (e - 16) < upperEnd m q - lowerEnd m q := by
  have hpos : (0 : ℚ) < 2 ^ (q - 2) := zpow_pos two_pos _
  have hten : (10 : ℚ) ^ (e - 16) = 10 ^ e / 10 ^ 16 := by
    rw [zpow_sub₀ (by norm_num)]
    rfl
  rw [hten, div_lt_iff₀ (by norm_num)]
  refine he.trans_lt ?_
  rw [upperEnd, lowerEnd, two_zpow_eq q]
  split_ifs with hpow
  · rw [hpow.1]
    push_cast
    nlinarith
  · have hm : (m : ℚ) < 2 ^ 53 := by exact_mod_cast hm
    nlinarith

theorem isSome_nearest?_seventeen (hm : 0 < m) (hlt : m < 2 ^ 53) {e : Int}
    (he : (10 : ℚ) ^ e ≤ m * 2 ^ q) (tie : Tie) :
    (((Interval.around m q).shift (e - 16)).nearest? tie).isSome := by
  have hten : (0 : ℚ) < 10 ^ (e - 16) := zpow_pos (by norm_num) _
  rw [Option.isSome_iff_ne_none]
  intro hnone
  obtain ⟨hfloor, hnext⟩ := not_contains_of_nearest?_eq_none hnone
  rw [contains_shift_around hm] at hfloor hnext
  set i := (Interval.around m q).shift (e - 16) with hi
  have hden : (0 : ℚ) < i.den := Nat.cast_pos.2 (den_shift_pos (den_around_pos m q) _)
  have hmid : (i.mid / i.den : ℚ) * 10 ^ (e - 16) = m * 2 ^ q := by
    have hscale : (i.mid / i.den : ℚ) =
        (Interval.around m q).mid / (Interval.around m q).den / 10 ^ (e - 16) :=
      scale_shift _ _ _
    rw [hscale, mid_around, div_mul_cancel₀ _ hten.ne']
  have hle : ((i.mid / i.den : Nat) : ℚ) * 10 ^ (e - 16) ≤ m * 2 ^ q := by
    rw [← hmid]
    exact mul_le_mul_of_nonneg_right Nat.cast_div_le hten.le
  have hgt : m * 2 ^ q < ((i.mid / i.den : Nat) : ℚ) * 10 ^ (e - 16) + 10 ^ (e - 16) := by
    rw [← hmid, ← add_one_mul]
    refine mul_lt_mul_of_pos_right ?_ hten
    rw [div_lt_iff₀ hden, mul_comm]
    exact_mod_cast Nat.lt_mul_div_succ i.mid (Nat.cast_pos.1 hden)
  -- The two neighbours of the middle are nearer to each other than the ends of the interval.
  rcases roundsTo_of_lt_width (ten_zpow_lt_width hlt he) hle hgt with h | h
  · exact hfloor h
  · rw [← add_one_mul] at h
    exact hnext (by exact_mod_cast h)

theorem value_normalize (fuel : Nat) (s : Scaled) : (s.normalize fuel).value = s.value := by
  induction fuel generalizing s with
  | zero => rfl
  | succ fuel ih =>
    unfold Scaled.normalize
    split_ifs with h
    · have hdigits : s.digits = s.digits / 10 * 10 := by omega
      rw [ih, Scaled.value, Scaled.value, zpow_add_one₀ (by norm_num)]
      conv_rhs => rw [hdigits]
      push_cast
      ring
    · rfl

theorem roundsTo_searchGrids (hm : 0 < m) {tie : Tie} {e : Int}
    (hlast : (((Interval.around m q).shift (e - 16)).nearest? tie).isSome) (more : Nat) :
    RoundsTo m q (searchGrids tie (Interval.around m q) e (more + 1)).value := by
  induction more with
  | zero =>
    obtain ⟨c, hc⟩ := Option.isSome_iff_exists.1 hlast
    have hround := (contains_shift_around hm q _ c).1 (contains_of_nearest? hc)
    simp only [searchGrids, Nat.sub_zero, Nat.cast_ofNat, hc, value_normalize]
    exact hround
  | succ more ih =>
    unfold searchGrids
    dsimp only
    split
    · next c hc =>
      have hround := (contains_shift_around hm q _ c).1 (contains_of_nearest? hc)
      rw [value_normalize]
      exact hround
    · exact ih

theorem roundsTo_shortest (hm : 0 < m) (hlt : m < 2 ^ 53) (q : Int) (tie : Tie) :
    RoundsTo m q (shortest tie m q).value := by
  have hmid : 0 < (Interval.around m q).mid :=
    Nat.mul_pos (Nat.mul_pos (by decide) hm) (Nat.pow_pos two_pos)
  have he := ten_zpow_leadingExponent_le hmid (den_around_pos m q)
  rw [mid_around] at he
  rw [shortest, if_neg hm.ne']
  exact roundsTo_searchGrids hm (isSome_nearest?_seventeen hm hlt he tie) 16

end Search

end GraphTransport.Decimal
