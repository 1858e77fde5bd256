import GraphTransport.Decimal.Style

namespace GraphTransport.Decimal

variable {n : Nat}

def digits (n : Nat) : List Digit := lastDigits (digitCount n) n

theorem digitCount_eq (n : Nat) : digitCount n = (Nat.toDigits 10 n).length := by
  rw [digitCount, Nat.toString_eq_ofList_toDigits, String.length_ofList]

theorem digits_of_lt (h : n < 10) : digits n = [Fin.ofNat 10 n] := by
  rw [digits, digitCount_eq, Nat.toDigits_of_lt_base h]
  rfl

theorem digits_of_le (h : 10 ≤ n) : digits n = digits (n / 10) ++ [Fin.ofNat 10 n] := by
  rw [digits, digitCount_eq, Nat.toDigits_of_base_le (by decide) h, List.length_append,
    ← digitCount_eq]
  rfl

theorem ofDigits_append (n : Nat) (ds es : List Digit) :
    ofDigits n (ds ++ es) = ofDigits (ofDigits n ds) es := List.foldl_append

theorem ofDigits_digits (n : Nat) : ofDigits 0 (digits n) = n := by
  induction n using Nat.strongRecOn with
  | ind n ih =>
    rcases Nat.lt_or_ge n 10 with h | h
    · rw [digits_of_lt h]
      simp [ofDigits, Nat.mod_eq_of_lt h]
    · rw [digits_of_le h, ofDigits_append, ih (n / 10) (by omega)]
      exact Nat.div_add_mod n 10

theorem exists_digits_eq_cons_of_le (h : 10 ≤ n) :
    ∃ d e ds, digits n = d :: e :: ds ∧ d.val ≠ 0 := by
  induction n using Nat.strongRecOn with
  | ind n ih =>
    rcases Nat.lt_or_ge (n / 10) 10 with hlt | hge
    · refine ⟨Fin.ofNat 10 (n / 10), Fin.ofNat 10 n, [], ?_, ?_⟩
      · rw [digits_of_le h, digits_of_lt hlt]
        rfl
      · simp only [Fin.val_ofNat]
        omega
    · obtain ⟨d, e, ds, hds, hd⟩ := ih (n / 10) (by omega) hge
      refine ⟨d, e, ds ++ [Fin.ofNat 10 n], ?_, hd⟩
      rw [digits_of_le h, hds]
      rfl

theorem exists_digits_eq_cons (n : Nat) : ∃ d ds, digits n = d :: ds := by
  rcases Nat.lt_or_ge n 10 with h | h
  · exact ⟨_, _, digits_of_lt h⟩
  · obtain ⟨d, e, ds, hds, -⟩ := exists_digits_eq_cons_of_le h
    exact ⟨d, e :: ds, hds⟩

theorem toChar_eq_digitChar (d : Digit) : d.toChar = Nat.digitChar d.val := by
  decide +revert

theorem toList_toString (n : Nat) : (toString n).toList = (digits n).map Digit.toChar := by
  rw [Nat.toString_eq_ofList_toDigits, String.toList_ofList]
  induction n using Nat.strongRecOn with
  | ind n ih =>
    rcases Nat.lt_or_ge n 10 with h | h
    · rw [Nat.toDigits_of_lt_base h, digits_of_lt h]
      simp [toChar_eq_digitChar, Nat.mod_eq_of_lt h]
    · rw [Nat.toDigits_of_base_le (by decide) h, digits_of_le h, ih (n / 10) (by omega)]
      simp [toChar_eq_digitChar]

theorem ofChar?_toChar (d : Digit) : Digit.ofChar? d.toChar = some d := by
  decide +revert

theorem takeDigits_append (ds : List Digit) {rest : List Char}
    (hrest : ∀ c ∈ rest.head?, Digit.ofChar? c = none) :
    takeDigits (ds.map Digit.toChar ++ rest) = (ds, rest) := by
  induction ds with
  | nil =>
    cases rest with
    | nil => rfl
    | cons c cs => simp [takeDigits, hrest c rfl]
  | cons d ds ih => simp [takeDigits, ofChar?_toChar, ih]

end GraphTransport.Decimal
