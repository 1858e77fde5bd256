import GraphTransport.Proofs.RungeKutta.Course

namespace GraphTransport

theorem fold_related {β γ : Type} {R : β → γ → Prop} (n : Nat)
    {step : (s : Nat) → s < n → β → β} {step' : (s : Nat) → s < n → γ → γ}
    (h : ∀ s hs b c, R b c → R (step s hs b) (step' s hs c)) {b : β} {c : γ} (hbc : R b c) :
    R (Nat.fold n step b) (Nat.fold n step' c) := by
  induction n with
  | zero => exact hbc
  | succ n ih =>
    rw [Nat.fold_succ, Nat.fold_succ]
    exact h n (Nat.lt_succ_self n) _ _ (ih fun s hs b c ↦ h s (Nat.lt_succ_of_lt hs) b c)

variable {α : Type} [Scalar α] {m n : Nat}

/-- Relations of states, one for each level. A greater level asks for more, and sums of a state and
a multiple of a slope keep every level. -/
structure IsGraded (E : Nat → Vector α m → Vector α n → Prop) : Prop where
  anti : ∀ {r s x x'}, r ≤ s → E s x x' → E r x x'
  addScaled : ∀ {r c k k' y y'}, E r k k' → E r y y' → E r (addScaled c k y) (addScaled c k' y')

namespace IsGraded

variable {E : Nat → Vector α m → Vector α n → Prop} (hE : IsGraded E) {T : Tableau α} {dt : α}
  {x : Vector α m} {x' : Vector α n} {r d : Nat}

include hE

theorem stageState {slopes : Vector (Vector α m) T.numStages}
    {slopes' : Vector (Vector α n) T.numStages} {s : Fin T.numStages} (hx : E r x x')
    (h : ∀ l < s, E r (slopes.get l) (slopes'.get l)) :
    E r (T.stageState dt x slopes s) (T.stageState dt x' slopes' s) := by
  refine fold_related s.val (fun l hl y y' hy ↦ ?_) hx
  dsimp only
  split
  · exact hy
  · exact hE.addScaled (h ⟨l, hl.trans s.isLt⟩ hl) hy

theorem advance {slopes : Vector (Vector α m) T.numStages}
    {slopes' : Vector (Vector α n) T.numStages} (hx : E r x x')
    (h : ∀ s, E r (slopes.get s) (slopes'.get s)) :
    E r (T.advance dt x slopes) (T.advance dt x' slopes') := by
  refine fold_related T.numStages (fun s hs y y' hy ↦ ?_) hx
  dsimp only
  split
  · exact hy
  · exact hE.addScaled (h ⟨s, hs⟩) hy

variable {F : Vector α m → Vector α m} {G : Vector α n → Vector α n}
  (hrates : ∀ r y y', E (r + d) y y' → E r (F y) (G y'))

include hrates

theorem slopes (s : Nat) (hs : s < T.numStages) (hx : E (r + d * (s + 1)) x x') :
    E r ((T.slopes F dt x).get ⟨s, hs⟩) ((T.slopes G dt x').get ⟨s, hs⟩) := by
  -- The slopes before stage `s` are needed at `d` levels more than its own.
  induction s using Nat.strong_induction_on generalizing r with
  | _ s ih =>
    rw [Tableau.get_slopes, Tableau.get_slopes]
    apply hrates
    refine hE.stageState (hE.anti ?_ hx) fun l hl ↦ ih l hl l.isLt (hE.anti ?_ hx)
    · rw [Nat.mul_succ d s]
      omega
    · have hearlier : d * (l + 1) ≤ d * s := Nat.mul_le_mul_left d hl
      rw [Nat.mul_succ d s]
      omega

theorem stepMap (hx : E (r + d * T.numStages) x x') :
    E r (T.stepMap F dt x) (T.stepMap G dt x') := by
  refine hE.advance (hE.anti (Nat.le_add_right _ _) hx) fun s ↦ ?_
  refine hE.slopes hrates s s.isLt (hE.anti ?_ hx)
  exact Nat.add_le_add_left (Nat.mul_le_mul_left d s.isLt) r

variable {ε ε' σ σ' : Type} {f : RateFunction ε σ α} {g : RateFunction ε' σ' α}

theorem successive (hf : f.Computes F) (hg : g.Computes G)
    {buffers buffers' : StageBuffers α T.numStages} {t t' : α} {memory : σ} {memory' : σ'}
    (size : Nat → α) {k : Nat}
    (hx : E (r + d * T.numStages * k) x x') :
    E r (Solver.successive f size ⟨.ok (), ⟨T, buffers⟩, x, t, memory⟩ k).x
      (Solver.successive g size ⟨.ok (), ⟨T, buffers'⟩, x', t', memory'⟩ k).x := by
  induction k generalizing r with
  | zero => exact hx
  | succ k ih =>
    rw [Solver.x_successive_succ hf rfl, Solver.x_successive_succ hg rfl]
    refine hE.stepMap hrates (ih ?_)
    rwa [Nat.mul_succ, Nat.add_comm (_ * k), ← Nat.add_assoc] at hx

end IsGraded

end GraphTransport
