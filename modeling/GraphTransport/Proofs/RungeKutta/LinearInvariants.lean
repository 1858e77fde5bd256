import Mathlib.Tactic.Ring
import GraphTransport.Proofs.Scalar.Exact
import GraphTransport.Proofs.RungeKutta.Step

namespace GraphTransport

theorem fold_keeps {β : Type} {P : β → Prop} (n : Nat) {step : (s : Nat) → s < n → β → β}
    (h : ∀ s hs b, P b → P (step s hs b)) {b : β} (hb : P b) : P (Nat.fold n step b) := by
  induction n with
  | zero => exact hb
  | succ n ih =>
    rw [Nat.fold_succ]
    apply h
    exact ih fun s hs b ↦ h s (by omega) b

variable {F : Type} [Field F] [LinearOrder F] {n : Nat}

/-- A quantity of a state that a multiple of a slope changes by the same multiple. -/
def IsLinear (quantity : Vector F n → F) : Prop :=
  ∀ c k y, quantity (addScaled c k y) = c * quantity k + quantity y

theorem Tableau.stepMap_of_linear {quantity : Vector F n → F} (hlinear : IsLinear quantity)
    {f : Vector F n → Vector F n} (hf : ∀ y, quantity (f y) = 0) (T : Tableau F) (dt : F)
    (x : Vector F n) : quantity (T.stepMap f dt x) = quantity x := by
  have hslope (s : Fin T.numStages) : quantity ((T.slopes f dt x).get s) = 0 := by
    rw [Tableau.get_slopes]
    exact hf _
  unfold stepMap advance
  apply fold_keeps (P := fun y ↦ quantity y = quantity x)
  · intro s hs y hy
    dsimp only
    split
    · exact hy
    · have hs' : quantity (T.slopes f dt x)[s] = 0 := hslope ⟨s, hs⟩
      rw [hlinear, hy, hs', mul_zero, zero_add]
  · rfl

end GraphTransport
