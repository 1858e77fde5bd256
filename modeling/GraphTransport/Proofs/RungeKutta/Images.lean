import GraphTransport.Proofs.RungeKutta.Relations

namespace GraphTransport

variable {α : Type} [Scalar α] {m n : Nat}

def IsComponentwise (φ : Vector α m → Vector α n) : Prop :=
  ∀ c k y, φ (addScaled c k y) = addScaled c (φ k) (φ y)

theorem IsComponentwise.isGraded {φ : Vector α m → Vector α n} (hφ : IsComponentwise φ) :
    IsGraded fun _ x x' ↦ φ x = x' where
  anti _ h := h
  addScaled := by
    rintro - c k - y - rfl rfl
    exact hφ c k y

theorem Tableau.map_stepMap {φ : Vector α m → Vector α n} (hφ : IsComponentwise φ) (T : Tableau α)
    (dt : α) (x : Vector α m) {F : Vector α m → Vector α m} {G : Vector α n → Vector α n}
    (hF : ∀ y, φ (F y) = G (φ y)) : φ (T.stepMap F dt x) = T.stepMap G dt (φ x) :=
  hφ.isGraded.stepMap (r := 0) (d := 0) (fun _ y _ hy ↦ hy ▸ hF y) rfl

namespace Solver

variable {ε σ σ' : Type} {φ : Vector α m → Vector α n} {f : RateFunction ε σ α}
  {g : RateFunction ε σ' α} {F : Vector α m → Vector α m} {G : Vector α n → Vector α n}
  {solver solver' : Solver α} {tFinal dt : α} {memory : σ} {memory' : σ'}

theorem related_course {R : Vector α m → Vector α n → Prop} (hf : f.Computes F)
    (hg : g.Computes G) (hstep : ∀ k y y', GoesOn tFinal dt k → R y y' →
      R (solver.tableau.stepMap F (stepSize tFinal dt k) y)
        (solver'.tableau.stepMap G (stepSize tFinal dt k) y'))
    {x : Vector α m} {x' : Vector α n} (hx : R x x') {k : Nat}
    (hgoes : ∀ j < k, GoesOn tFinal dt j) :
    R (solver.course f x tFinal dt memory k).x (solver'.course g x' tFinal dt memory' k).x := by
  induction k with
  | zero => exact hx
  | succ k ih =>
    rw [x_course_succ hf, x_course_succ hg]
    exact hstep k _ _ (hgoes k k.lt_succ_self) (ih fun j hj ↦ hgoes j (Nat.lt_succ_of_lt hj))

/-- What relates the states of two runs and is kept by their steps relates them all along. The times
of both runs are the same. -/
theorem related_integrate {R : Vector α m → Vector α n → Prop} (hf : f.Computes F)
    (hg : g.Computes G) (solver solver' : Solver α) (hdt : 0 < dt)
    (hstep : ∀ k y y', GoesOn tFinal dt k → R y y' →
      R (solver.tableau.stepMap F (stepSize tFinal dt k) y)
        (solver'.tableau.stepMap G (stepSize tFinal dt k) y'))
    (budget : Nat) {x : Vector α m} {x' : Vector α n} (hx : R x x') (memory : σ) (memory' : σ') :
    ∃ outcome final final',
      solver.integrate budget f recordCalls x tFinal dt memory [] = (outcome, final) ∧
      solver'.integrate budget g recordCalls x' tFinal dt memory' [] = (outcome, final') ∧
      (outcome = .ok ⟨final.steps, final.t⟩ ∨ outcome = .error (.broken .stepBudgetSpent)) ∧
      final.steps = final'.steps ∧ final.t = final'.t ∧ R final.x final'.x ∧
      List.Forall₂ (fun call call' ↦ call.1 = call'.1 ∧ call.2.1 = call'.2.1 ∧
        R call.2.2 call'.2.2) final.seen final'.seen := by
  obtain ⟨-, hbefore, -⟩ := stepsWithin_spec tFinal dt budget
  have hrelated {k : Nat} (hk : k ≤ stepsWithin tFinal dt budget) :
      R (solver.course f x tFinal dt memory k).x (solver'.course g x' tFinal dt memory' k).x :=
    related_course hf hg hstep hx fun j hj ↦ hbefore j (hj.trans_le hk)
  refine ⟨_, _, _, integrate_of_course_ok hdt budget fun k ↦ course_ok hf.neverFails k,
    integrate_of_course_ok hdt budget fun k ↦ course_ok hg.neverFails k, ?_, rfl, rfl,
    hrelated le_rfl, ?_⟩
  · rw [outcomeAfter]
    split
    · exact Or.inr rfl
    · exact Or.inl rfl
  · rw [runAfter, runAfter, callsAfter, callsAfter, List.forall₂_reverse_iff,
      List.forall₂_map_left_iff, List.forall₂_map_right_iff, List.forall₂_same]
    exact fun j hj ↦ ⟨rfl, rfl, hrelated (List.mem_range.1 hj)⟩

theorem map_integrate (hφ : IsComponentwise φ) (hf : f.Computes F) (hg : g.Computes G)
    (hF : ∀ y, φ (F y) = G (φ y)) (hsolver : solver.tableau = solver'.tableau) (hdt : 0 < dt)
    (budget : Nat) (x : Vector α m) : ∃ outcome final final',
      solver.integrate budget f recordCalls x tFinal dt memory [] = (outcome, final) ∧
      solver'.integrate budget g recordCalls (φ x) tFinal dt memory' [] = (outcome, final') ∧
      (outcome = .ok ⟨final.steps, final.t⟩ ∨ outcome = .error (.broken .stepBudgetSpent)) ∧
      final.steps = final'.steps ∧ final.t = final'.t ∧ φ final.x = final'.x ∧
      final.seen.map (fun (step, t, y) ↦ (step, t, φ y)) = final'.seen := by
  have hstep (k : Nat) (y : Vector α m) (y' : Vector α n) (_ : GoesOn tFinal dt k)
      (hy : φ y = y') : φ (solver.tableau.stepMap F (stepSize tFinal dt k) y) =
        solver'.tableau.stepMap G (stepSize tFinal dt k) y' := by
    rw [Tableau.map_stepMap hφ _ _ _ hF, hy, hsolver]
  obtain ⟨outcome, final, final', hrun, hrun', houtcome, hsteps, ht, hx, hseen⟩ :=
    related_integrate (R := fun y y' ↦ φ y = y') hf hg solver solver' hdt hstep budget rfl memory
      memory'
  refine ⟨outcome, final, final', hrun, hrun', houtcome, hsteps, ht, hx, ?_⟩
  rw [← List.forall₂_eq_eq_eq, List.forall₂_map_left_iff]
  exact hseen.imp fun call call' h ↦ Prod.ext h.1 (Prod.ext h.2.1 h.2.2)

end Solver

end GraphTransport
