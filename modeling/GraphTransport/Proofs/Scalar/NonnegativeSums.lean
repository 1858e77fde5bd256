import GraphTransport.Proofs.Scalar.Rounding

namespace GraphTransport

/-- Adding nonnegative numbers gives a nonnegative one, which is positive if one of them is. -/
class NonnegativeSums (α : Type) [Scalar α] : Prop where
  zero_nonneg : (0 : α) ≤ 0
  nonneg_of_pos {a : α} : 0 < a → 0 ≤ a
  beq_self {a : α} : 0 ≤ a → (a == a) = true
  add_nonneg {a b : α} : 0 ≤ a → 0 ≤ b → 0 ≤ a + b
  add_pos_of_pos_of_nonneg {a b : α} : 0 < a → 0 ≤ b → 0 < a + b
  add_pos_of_nonneg_of_pos {a b : α} : 0 ≤ a → 0 < b → 0 < a + b

namespace NonnegativeSums

variable {α : Type} [Scalar α] [NonnegativeSums α] {l : List α} {a : α}

theorem foldl_add_pos_of_pos (ha : 0 < a) (hl : ∀ v ∈ l, 0 ≤ v) : 0 < l.foldl (· + ·) a := by
  induction l generalizing a with
  | nil => exact ha
  | cons v l ih =>
    obtain ⟨hv, hl⟩ := List.forall_mem_cons.1 hl
    exact ih (add_pos_of_pos_of_nonneg ha hv) hl

theorem foldl_add_pos (ha : 0 ≤ a) (hl : ∀ v ∈ l, 0 ≤ v) (hpos : ∃ v ∈ l, 0 < v) :
    0 < l.foldl (· + ·) a := by
  induction l generalizing a with
  | nil => simp at hpos
  | cons v l ih =>
    obtain ⟨hv, hl⟩ := List.forall_mem_cons.1 hl
    obtain ⟨w, hw, hwpos⟩ := hpos
    rw [List.foldl_cons]
    cases hw with
    | head => exact foldl_add_pos_of_pos (add_pos_of_nonneg_of_pos ha hwpos) hl
    | tail _ hw => exact ih (add_nonneg ha hv) hl ⟨w, hw, hwpos⟩

end NonnegativeSums

section Instances

variable {F : Type} [Field F] [LinearOrder F] [IsStrictOrderedRing F]

instance (priority := low) : NonnegativeSums F where
  zero_nonneg := le_rfl
  nonneg_of_pos := le_of_lt
  beq_self _ := beq_self_eq_true _
  add_nonneg := add_nonneg
  add_pos_of_pos_of_nonneg := add_pos_of_pos_of_nonneg
  add_pos_of_nonneg_of_pos := add_pos_of_nonneg_of_pos

namespace Rounded

variable {ρ : Rounding F} {a b : Rounded ρ}

theorem le_add_of_left_nonneg (ha : 0 ≤ a) : b ≤ a + b := by
  have h : ρ.round b.val ≤ ρ.round (a.val + b.val) := ρ.mono (le_add_of_nonneg_left ha)
  rwa [b.property] at h

theorem le_add_of_right_nonneg (hb : 0 ≤ b) : a ≤ a + b := by
  have h : ρ.round a.val ≤ ρ.round (a.val + b.val) := ρ.mono (le_add_of_nonneg_right hb)
  rwa [a.property] at h

instance : NonnegativeSums (Rounded ρ) where
  zero_nonneg := le_rfl
  nonneg_of_pos := le_of_lt
  beq_self _ := beq_self_eq_true _
  add_nonneg ha hb := le_trans ha (le_add_of_right_nonneg hb)
  add_pos_of_pos_of_nonneg ha hb := lt_of_lt_of_le ha (le_add_of_right_nonneg hb)
  add_pos_of_nonneg_of_pos ha hb := lt_of_lt_of_le hb (le_add_of_left_nonneg ha)

end Rounded

end Instances

end GraphTransport
