import GraphTransport.Proofs.Scalar.NearestEven

namespace GraphTransport

variable {p : Nat} {a b d : ℚ}

theorem succ_le_roundEven {m : ℤ} (h : m + 1 / 2 < a) : m + 1 ≤ roundEven a := by
  have hm : m ≤ ⌊a⌋ := Int.le_floor.2 (by linarith)
  rcases hm.lt_or_eq with hlt | rfl
  · exact (Int.add_one_le_of_lt hlt).trans (floor_le_roundEven a)
  · have hfract : 1 < 2 * Int.fract a := by
      have hsum := Int.floor_add_fract a
      linarith
    rw [roundEven, if_neg (not_lt.2 hfract.le), if_pos hfract]

theorem roundEven_eq_of_even {m : ℤ} (hm : Even m) (hle : m ≤ a) (hhalf : a ≤ m + 1 / 2) :
    roundEven a = m := by
  have hfloor : ⌊a⌋ = m := Int.floor_eq_iff.2 ⟨hle, by linarith⟩
  have hfract : ¬ 1 < 2 * Int.fract a := by
    rw [Int.fract, hfloor]
    linarith
  rw [roundEven, if_neg hfract, hfloor, Int.even_iff.1 hm, add_zero, ite_self]

theorem nearestEven_pos (hp : 0 < p) (ha : 0 < a) : 0 < nearestEven p a := by
  have hle : 2 ^ Int.log 2 |a| ≤ a := (two_zpow_log_le ha.ne').trans_eq (abs_of_pos ha)
  exact (zpow_pos two_pos _).trans_le (le_nearestEven hp (nearestEven_zpow hp _) hle)

theorem nearestEven_spacing (hp : 0 < p) (a : ℚ) : nearestEven p (spacing p a) = spacing p a :=
  nearestEven_zpow hp _

theorem spacing_mono (ha : 0 < a) (hab : a ≤ b) : spacing p a ≤ spacing p b := by
  have hlog : Int.log 2 |a| ≤ Int.log 2 |b| :=
    Int.log_mono_right (abs_pos.2 ha.ne') (abs_le_abs_of_nonneg ha.le hab)
  exact zpow_le_zpow_right₀ one_le_two (by omega)

theorem spacing_eq_of_lt (ha : 0 < a) (hab : a ≤ b) (hb : b < 2 ^ p * spacing p a) :
    spacing p b = spacing p a := by
  refine le_antisymm ?_ (spacing_mono ha hab)
  have hb₀ : 0 < b := ha.trans_le hab
  rw [two_pow_mul_spacing, ← abs_of_pos hb₀] at hb
  have hlog := (Int.lt_zpow_iff_log_lt one_lt_two (abs_pos.2 hb₀.ne')).1 hb
  exact zpow_le_zpow_right₀ one_le_two (by omega)

theorem add_le_of_lt_of_multiples {s : ℚ} (hs : 0 < s) (ha : ∃ m : ℤ, m * s = a)
    (hb : ∃ m : ℤ, m * s = b) (hab : a < b) : a + s ≤ b := by
  obtain ⟨m, rfl⟩ := ha
  obtain ⟨k, rfl⟩ := hb
  have hlt : m < k := Int.cast_lt.1 (lt_of_mul_lt_mul_right hab hs.le)
  have hle : ((m + 1 : ℤ) : ℚ) ≤ k := Int.cast_le.2 (Int.add_one_le_of_lt hlt)
  rw [← add_one_mul]
  exact mul_le_mul_of_nonneg_right (by exact_mod_cast hle) hs.le

theorem exists_mul_spacing_eq (ha : nearestEven p a = a) : ∃ m : ℤ, m * spacing p a = a :=
  ⟨_, ha⟩

theorem add_spacing_le (ha : nearestEven p a = a) : a + spacing p a ≤ 2 ^ p * spacing p a := by
  have hlt : a < 2 ^ p * spacing p a := by
    rw [two_pow_mul_spacing]
    exact (le_abs_self a).trans_lt (abs_lt_two_zpow_log a)
  exact add_le_of_lt_of_multiples (spacing_pos p a) (exists_mul_spacing_eq ha)
    ⟨2 ^ p, by push_cast; rfl⟩ hlt

theorem exists_mul_spacing_eq_of_le (ha : 0 < a) (hab : a ≤ b) (hb : nearestEven p b = b) :
    ∃ m : ℤ, m * spacing p a = b := by
  obtain ⟨m, hm⟩ := exists_mul_spacing_eq hb
  have hlog : Int.log 2 |a| ≤ Int.log 2 |b| :=
    Int.log_mono_right (abs_pos.2 ha.ne') (abs_le_abs_of_nonneg ha.le hab)
  obtain ⟨k, hk⟩ := Int.eq_ofNat_of_zero_le (sub_nonneg.2 hlog)
  have hspacing : spacing p b = 2 ^ k * spacing p a := by
    rw [spacing, spacing, ← zpow_natCast, ← zpow_add₀ two_ne_zero]
    congr 1
    omega
  refine ⟨m * 2 ^ k, ?_⟩
  rw [← hm, hspacing]
  push_cast
  ring

theorem add_spacing_le_of_lt (ha : 0 < a) (hrep : nearestEven p a = a) (hb : nearestEven p b = b)
    (hab : a < b) : a + spacing p a ≤ b :=
  add_le_of_lt_of_multiples (spacing_pos p a) (exists_mul_spacing_eq hrep)
    (exists_mul_spacing_eq_of_le ha hab.le hb) hab

theorem nearestEven_add_spacing (hp : 0 < p) (ha : 0 < a) (hrep : nearestEven p a = a) :
    nearestEven p (a + spacing p a) = a + spacing p a := by
  have hs := spacing_pos p a
  rcases (add_spacing_le hrep).lt_or_eq with hlt | heq
  · obtain ⟨m, hm⟩ := exists_mul_spacing_eq hrep
    refine nearestEven_of_div_eq (m := m + 1) ?_
    rw [spacing_eq_of_lt ha (by linarith) hlt, div_eq_iff hs.ne', Int.cast_add, Int.cast_one,
      add_one_mul, hm]
  · rw [heq, two_pow_mul_spacing]
    exact nearestEven_zpow hp _

theorem nearestEven_of_multiple (hp : 0 < p) (hb : ∃ m : ℤ, m * spacing p a = b)
    (hle : |b| ≤ 2 ^ p * spacing p a) : nearestEven p b = b := by
  obtain ⟨m, rfl⟩ := hb
  rw [abs_mul, abs_of_pos (spacing_pos p a)] at hle
  have hm := le_of_mul_le_mul_right hle (spacing_pos p a)
  exact nearestEven_mul_zpow hp (by exact_mod_cast hm) _

/-- The difference from a larger number is exact if it is rounded to the smaller one at most. -/
theorem nearestEven_sub (hp : 0 < p) (ha : 0 < a) (hab : a ≤ b) (hrep : nearestEven p a = a)
    (hb : nearestEven p b = b) (hle : nearestEven p (b - a) ≤ a) :
    nearestEven p (b - a) = b - a := by
  obtain ⟨k, hk⟩ := exists_mul_spacing_eq hrep
  obtain ⟨m, hm⟩ := exists_mul_spacing_eq_of_le ha hab hb
  have hmultiple : ∃ l : ℤ, l * spacing p a = b - a := by
    refine ⟨m - k, ?_⟩
    rw [Int.cast_sub, sub_mul, hm, hk]
  -- A difference beyond `a` would be at least the next number, and rounding would keep it there.
  have hsmall : b - a ≤ a := by
    by_contra hlarge
    have hnext := add_le_of_lt_of_multiples (spacing_pos p a) ⟨k, hk⟩ hmultiple (not_le.1 hlarge)
    have hround := le_nearestEven hp (nearestEven_add_spacing hp ha hrep) hnext
    exact ((lt_add_of_pos_right a (spacing_pos p a)).trans_le (hround.trans hle)).false
  refine nearestEven_of_multiple hp hmultiple ?_
  have hs := spacing_pos p a
  have hbound := add_spacing_le hrep
  rw [abs_of_nonneg (sub_nonneg.2 hab)]
  linarith

theorem add_spacing_le_nearestEven (hp : 0 < p) (ha : 0 < a) (hrep : nearestEven p a = a)
    (hd : spacing p a / 2 < d) : a + spacing p a ≤ nearestEven p (a + d) := by
  have hs := spacing_pos p a
  -- A whole spacing leads there by monotonicity. Less than that does not change the exponent.
  rcases le_or_gt (spacing p a) d with hle | hlt
  · exact le_nearestEven hp (nearestEven_add_spacing hp ha hrep) (by linarith)
  · have hspacing : spacing p (a + d) = spacing p a := by
      have hnext := add_spacing_le hrep
      exact spacing_eq_of_lt ha (by linarith) (by linarith)
    obtain ⟨m, hm⟩ : ∃ m : ℤ, m * spacing p a = a := ⟨_, hrep⟩
    have hround : m + 1 ≤ roundEven ((a + d) / spacing p a) := by
      refine succ_le_roundEven ?_
      rw [lt_div_iff₀ hs, add_mul, hm]
      linarith
    calc a + spacing p a = ((m + 1 : ℤ) : ℚ) * spacing p a := by
          push_cast
          rw [add_one_mul, hm]
      _ ≤ roundEven ((a + d) / spacing p a) * spacing p a :=
          mul_le_mul_of_nonneg_right (Int.cast_le.2 hround) hs.le
      _ = nearestEven p (a + d) := by rw [nearestEven, hspacing]

theorem spacing_two_zpow (p : Nat) (e : ℤ) : spacing p (2 ^ e) = 2 ^ (e + 1 - p) := by
  rw [spacing, abs_of_pos (zpow_pos two_pos e)]
  have hlog : Int.log 2 ((2 : ℚ) ^ e) = e := Int.log_zpow one_lt_two e
  rw [hlog]

theorem nearestEven_two_zpow_add (hp : 2 ≤ p) {e : ℤ} (hd : 0 ≤ d)
    (hhalf : d ≤ spacing p (2 ^ e) / 2) : nearestEven p (2 ^ e + d) = 2 ^ e := by
  obtain ⟨r, rfl⟩ : ∃ r, p = r + 2 := ⟨p - 2, by omega⟩
  have hpower : (0 : ℚ) < 2 ^ e := zpow_pos two_pos e
  have hs := spacing_pos (r + 2) (2 ^ e)
  have hspacing : spacing (r + 2) (2 ^ e + d) = spacing (r + 2) (2 ^ e) := by
    have hrep : nearestEven (r + 2) (2 ^ e) = 2 ^ e := nearestEven_zpow (by omega) e
    have hnext := add_spacing_le hrep
    exact spacing_eq_of_lt hpower (by linarith) (by linarith)
  have hmultiple : ((2 ^ (r + 1) : ℤ) : ℚ) * spacing (r + 2) (2 ^ e) = 2 ^ e := by
    rw [spacing_two_zpow, Int.cast_pow, Int.cast_ofNat, ← zpow_natCast, ← zpow_add₀ two_ne_zero]
    congr 1
    push_cast
    ring
  have hround : roundEven ((2 ^ e + d) / spacing (r + 2) (2 ^ e)) = 2 ^ (r + 1) := by
    refine roundEven_eq_of_even ⟨2 ^ r, by ring⟩ ?_ ?_
    · rw [le_div_iff₀ hs, hmultiple]
      linarith
    · rw [div_le_iff₀ hs, add_mul, hmultiple]
      linarith
  rw [nearestEven, hspacing, hround, hmultiple]

end GraphTransport
