import GraphTransport.Proofs.Decimal.Shortest

namespace GraphTransport.Decimal

def Literal.magnitude (l : Literal) : ℚ :=
  ofDigits l.integer l.fraction * 10 ^ (l.exponent.getD 0 - l.fraction.length)

theorem length_lastDigits (k n : Nat) : (lastDigits k n).length = k := by
  induction k generalizing n with
  | zero => rfl
  | succ k ih => rw [lastDigits, List.length_append, ih, List.length_singleton]

theorem ofDigits_lastDigits (k n : Nat) : ofDigits (n / 10 ^ k) (lastDigits k n) = n := by
  induction k generalizing n with
  | zero => exact Nat.div_one n
  | succ k ih =>
    have hquot : n / 10 ^ (k + 1) = n / 10 / 10 ^ k := by
      rw [Nat.div_div_eq_div_mul, Nat.pow_succ, Nat.mul_comm]
    rw [hquot, lastDigits, ofDigits_append, ih]
    exact Nat.div_add_mod n 10

namespace Style

variable (style : Style) (negative : Bool) (s : Scaled)

theorem ten_pow_toNat {e : Int} (he : 0 ≤ e) : (10 : ℚ) ^ e.toNat = 10 ^ e := by
  rw [← zpow_natCast, Int.toNat_of_nonneg he]

theorem magnitude_layPositional : (style.layPositional negative s).magnitude = s.value := by
  unfold layPositional
  split_ifs with he hpoint
  · have hzero : ofDigits (s.digits * 10 ^ s.exponent.toNat) (lastDigits 1 0) =
        10 * (s.digits * 10 ^ s.exponent.toNat) := rfl
    simp only [Literal.magnitude, Scaled.value, Nat.pow_eq, hzero, length_lastDigits]
    push_cast
    rw [ten_pow_toNat he]
    norm_num
    ring
  · simp [Literal.magnitude, Scaled.value, ofDigits, ten_pow_toNat he]
  · have hplaces : (0 : Int) - s.exponent.natAbs = s.exponent := by omega
    simp only [Literal.magnitude, Nat.pow_eq, ofDigits_lastDigits, length_lastDigits,
      Option.getD_none, hplaces]
    rfl

theorem magnitude_layScientific : (layScientific negative s).magnitude = s.value := by
  simp [layScientific, Literal.magnitude, ofDigits_lastDigits, length_lastDigits, Scaled.value]

theorem magnitude_literal (m : Nat) (q : Int) :
    (style.literal negative m q).magnitude = (shortest style.tie m q).value := by
  unfold literal
  dsimp only
  split
  · exact style.magnitude_layPositional negative _
  · exact magnitude_layScientific negative _

theorem negative_literal (m : Nat) (q : Int) :
    (style.literal negative m q).negative = negative := by
  unfold literal layPositional layScientific
  dsimp only
  split_ifs <;> rfl

end Style

end GraphTransport.Decimal
