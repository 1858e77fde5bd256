import Mathlib.Data.List.FinRange
import GraphTransport.RungeKutta.Step

namespace GraphTransport

variable {ε σ α : Type} {n : Nat}

/-- No evaluation fails, and the rates of `x` are `F x`. -/
def RateFunction.Computes (f : RateFunction ε σ α) (F : Vector α n → Vector α n) : Prop :=
  ∀ x y memory, (f.eval x y memory).outcome = .ok () ∧ (f.eval x y memory).rates = F x

def RateFunction.NeverFails (f : RateFunction ε σ α) (n : Nat) : Prop :=
  ∀ (x y : Vector α n) memory, (f.eval x y memory).outcome = .ok ()

theorem RateFunction.Computes.neverFails {f : RateFunction ε σ α} {F : Vector α n → Vector α n}
    (hf : f.Computes F) : f.NeverFails n :=
  fun x y memory ↦ (hf x y memory).1

theorem get_setIfInBounds_self (xs : Vector α n) (s : Fin n) (x : α) :
    (xs.setIfInBounds s x).get s = x :=
  Vector.getElem_setIfInBounds_self s.isLt

theorem get_setIfInBounds_ne (xs : Vector α n) {s l : Fin n} (x : α) (h : s ≠ l) :
    (xs.setIfInBounds s x).get l = xs.get l :=
  Vector.getElem_setIfInBounds_ne l.isLt (mt Fin.ext h)

theorem set_eq_setIfInBounds (xs : Vector α n) (s : Fin n) (x : α) :
    xs.set s.val x s.isLt = xs.setIfInBounds s x := by
  refine Vector.ext fun l hl ↦ ?_
  rw [Vector.getElem_set, Vector.getElem_setIfInBounds]

variable [Scalar α]

namespace Tableau

variable (T : Tableau α) (F : Vector α n → Vector α n) (dt : α) (x : Vector α n)

variable {T dt x} in
theorem stageState_congr {slopes slopes' : Vector (Vector α n) T.numStages} {s : Fin T.numStages}
    (h : ∀ l < s, slopes.get l = slopes'.get l) :
    T.stageState dt x slopes s = T.stageState dt x slopes' s := by
  have hstep : (fun (l : Nat) (hl : l < s.val) (y : Vector α n) ↦
      have : l < T.numStages := Nat.lt_trans hl s.isLt
      let a := T.coefficients[s][l]
      if a == 0 then y else addScaled (dt * a) slopes[l] y) =
      fun (l : Nat) (hl : l < s.val) (y : Vector α n) ↦
      have : l < T.numStages := Nat.lt_trans hl s.isLt
      let a := T.coefficients[s][l]
      if a == 0 then y else addScaled (dt * a) slopes'[l] y := by
    funext l hl y
    have hl' : l < T.numStages := Nat.lt_trans hl s.isLt
    have hslope : slopes[l] = slopes'[l] := h ⟨l, hl'⟩ hl
    simp only [hslope]
  exact congrArg (fun step ↦ Nat.fold s.val step x) hstep

def writeSlopes (stages : List (Fin T.numStages)) (slopes : Vector (Vector α n) T.numStages) :
    Vector (Vector α n) T.numStages :=
  stages.foldl (fun slopes (s : Fin T.numStages) ↦
    slopes.setIfInBounds s (F (T.stageState dt x slopes s))) slopes

def slopes : Vector (Vector α n) T.numStages :=
  T.writeSlopes F dt x (List.finRange T.numStages) (Vector.replicate T.numStages x)

def stepMap : Vector α n := T.advance dt x (T.slopes F dt x)

variable {T F dt x}

theorem writeSlopes_spec {stages : List (Fin T.numStages)} (hstages : stages.Pairwise (· < ·))
    (slopes : Vector (Vector α n) T.numStages) :
    (∀ s, s ∉ stages → (T.writeSlopes F dt x stages slopes).get s = slopes.get s) ∧
      ∀ s ∈ stages, (T.writeSlopes F dt x stages slopes).get s =
        F (T.stageState dt x (T.writeSlopes F dt x stages slopes) s) := by
  induction stages generalizing slopes with
  | nil => simp [writeSlopes]
  | cons s rest ih =>
    obtain ⟨hfirst, hrest⟩ := List.pairwise_cons.1 hstages
    let next := slopes.setIfInBounds s (F (T.stageState dt x slopes s))
    obtain ⟨hkept, hwritten⟩ := ih hrest next
    have hcons : T.writeSlopes F dt x (s :: rest) slopes = T.writeSlopes F dt x rest next := rfl
    have hs : s ∉ rest := fun h ↦ (hfirst s h).false
    rw [hcons]
    constructor
    · intro l hl
      obtain ⟨hne, hl⟩ := not_or.1 (mt List.mem_cons.2 hl)
      rw [hkept l hl]
      exact get_setIfInBounds_ne _ _ (Ne.symm hne)
    · intro l hl
      rcases List.mem_cons.1 hl with rfl | hl
      · rw [hkept l hs]
        refine (get_setIfInBounds_self _ _ _).trans (congrArg F (stageState_congr fun m hm ↦ ?_))
        have hm' : m ∉ rest := fun h ↦ (hm.trans (hfirst m h)).false
        rw [hkept m hm']
        exact (get_setIfInBounds_ne _ _ hm.ne').symm
      · exact hwritten l hl

theorem get_slopes (s : Fin T.numStages) :
    (T.slopes F dt x).get s = F (T.stageState dt x (T.slopes F dt x) s) :=
  (writeSlopes_spec (List.pairwise_lt_finRange _) _).2 s (List.mem_finRange s)

theorem eq_slopes {slopes : Vector (Vector α n) T.numStages}
    (h : ∀ s, slopes.get s = F (T.stageState dt x slopes s)) : slopes = T.slopes F dt x := by
  have hslope (s : Nat) (hs : s < T.numStages) :
      slopes.get ⟨s, hs⟩ = (T.slopes F dt x).get ⟨s, hs⟩ := by
    induction s using Nat.strong_induction_on with
    | _ s ih =>
      refine (h ⟨s, hs⟩).trans (Eq.trans ?_ (get_slopes ⟨s, hs⟩).symm)
      exact congrArg F (stageState_congr fun l hl ↦ ih l hl l.isLt)
  exact Vector.ext hslope

end Tableau

namespace Solver

theorem tableau_step (solver : Solver α) (f : RateFunction ε σ α) (x : Vector α n) (t dt : α)
    (memory : σ) : (solver.step f x t dt memory).solver.tableau = solver.tableau := by
  unfold step
  dsimp only
  split <;> rfl

theorem t_step_of_ok {solver : Solver α} {f : RateFunction ε σ α} {x : Vector α n} {t dt : α}
    {memory : σ} (h : (solver.step f x t dt memory).outcome = .ok ()) :
    (solver.step f x t dt memory).t = t + dt := by
  unfold step at h ⊢
  dsimp only at h ⊢
  split at h
  · cases h
  · rfl

variable {f : RateFunction ε σ α} {F : Vector α n → Vector α n}

theorem runStages_eq (T : Tableau α) (hf : f.Computes F) (dt : α) (x : Vector α n)
    (stages : List (Fin T.numStages)) (slopes : Vector (Vector α n) T.numStages) (memory : σ) :
    (runStages T f dt x stages slopes memory).outcome = .ok () ∧
      (runStages T f dt x stages slopes memory).slopes = T.writeSlopes F dt x stages slopes := by
  induction stages generalizing slopes memory with
  | nil => exact ⟨rfl, rfl⟩
  | cons s rest ih =>
    obtain ⟨hok, hrates⟩ := hf (T.stageState dt x slopes s) slopes[s] memory
    rw [runStages_cons_of_ok rest hok]
    simp only [hrates, set_eq_setIfInBounds]
    exact ih _ _

theorem step_ok (solver : Solver α) (hf : f.NeverFails n) (x : Vector α n) (t dt : α)
    (memory : σ) : (solver.step f x t dt memory).outcome = .ok () := by
  have hstages (stages : List (Fin solver.tableau.numStages))
      (slopes : Vector (Vector α n) solver.tableau.numStages) (memory : σ) :
      (runStages solver.tableau f dt x stages slopes memory).outcome = .ok () := by
    induction stages generalizing slopes memory with
    | nil => rfl
    | cons s rest ih =>
      rw [runStages_cons_of_ok rest (hf _ _ _)]
      exact ih _ _
  simp only [step, hstages]

theorem step_eq (solver : Solver α) (hf : f.Computes F) (x : Vector α n) (t dt : α) (memory : σ) :
    (solver.step f x t dt memory).outcome = .ok () ∧
      (solver.step f x t dt memory).solver.tableau = solver.tableau ∧
      (solver.step f x t dt memory).x = solver.tableau.stepMap F dt x ∧
      (solver.step f x t dt memory).t = t + dt := by
  obtain ⟨hok, hslopes⟩ := runStages_eq solver.tableau hf dt x (List.finRange _)
    (solver.buffers.slopesOfLength n) memory
  have hunique : solver.tableau.writeSlopes F dt x (List.finRange _)
      (solver.buffers.slopesOfLength n) = solver.tableau.slopes F dt x :=
    Tableau.eq_slopes fun s ↦
      (Tableau.writeSlopes_spec (List.pairwise_lt_finRange _) _).2 s (List.mem_finRange s)
  simp only [step, hok, hslopes, hunique, Tableau.stepMap, and_self]

end Solver

end GraphTransport
