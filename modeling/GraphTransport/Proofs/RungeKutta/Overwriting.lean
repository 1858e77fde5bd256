import GraphTransport.Proofs.Evolution.Agreement
import GraphTransport.Proofs.RungeKutta.Requests

namespace GraphTransport

variable {ε σ α : Type} {k : Nat}

/-- What the vector of rates held before an evaluation decides neither whether the evaluation fails
nor, if it does not, what it leaves behind. -/
structure RateFunction.Overwrites (f : RateFunction ε σ α) : Prop where
  outcome_eq : ∀ {k : Nat} (x y y' : Vector α k) memory,
    (f.eval x y memory).outcome = (f.eval x y' memory).outcome
  memory_eq : ∀ {k : Nat} (x y y' : Vector α k) memory, (f.eval x y memory).outcome = .ok () →
    (f.eval x y memory).memory = (f.eval x y' memory).memory
  rates_eq : ∀ {k : Nat} (x y y' : Vector α k) memory, (f.eval x y memory).outcome = .ok () →
    (f.eval x y memory).rates = (f.eval x y' memory).rates

namespace RateFunction.Overwrites

theorem ofTotal (f : {k : Nat} → Vector α k → Vector α k) :
    (RateFunction.ofTotal f : RateFunction ε Unit α).Overwrites where
  outcome_eq _ _ _ _ := rfl
  memory_eq _ _ _ _ _ := rfl
  rates_eq _ _ _ _ _ := rfl

variable {f : RateFunction ε σ α} (hf : f.Overwrites)

include hf

theorem logged : f.logged.Overwrites where
  outcome_eq x y y' log := hf.outcome_eq x y y' log.memory
  memory_eq x y y' log h := by
    simp only [RateFunction.logged, hf.outcome_eq x y y' log.memory,
      hf.memory_eq x y y' log.memory h]
  rates_eq x y y' log := hf.rates_eq x y y' log.memory

theorem metered (limit : Option Nat) : (f.metered limit).Overwrites where
  outcome_eq x y y' meter := by
    simp only [RateFunction.metered, hf.outcome_eq x y y' meter.memory]
    split <;> rfl
  memory_eq x y y' meter := by
    simp only [RateFunction.metered]
    split
    · exact fun _ ↦ rfl
    · intro h
      rw [hf.memory_eq x y y' meter.memory (mapError_eq_ok_iff.1 h)]
  rates_eq x y y' meter := by
    simp only [RateFunction.metered]
    split
    · exact fun h ↦ nomatch h
    · exact fun h ↦ hf.rates_eq x y y' meter.memory (mapError_eq_ok_iff.1 h)

end RateFunction.Overwrites

variable [Scalar α]

theorem scratch_of_evaluateVariable {n : Nat} {scheme : Scheme} {g : GraphOperator α}
    {schedule : Schedule} {x : Array α} {base : Nat} {y y₁ : Vector α k} {z z₁ : Vector α n}
    (h : evaluateVariable scheme g schedule x base y z = .ok (y₁, z₁)) :
    (if scheme.needsLowOrderRates then schedule.run (g.lowOrderRate x) 0 z else .ok z) =
      .ok z₁ := by
  by_cases hneeds : scheme.needsLowOrderRates
  · simp only [evaluateVariable, if_pos hneeds] at h ⊢
    obtain ⟨w, hw, h⟩ := bind_eq_ok.1 h
    obtain ⟨_, -, h⟩ := bind_eq_ok.1 h
    cases h
    exact hw
  · simp only [evaluateVariable, if_neg hneeds, pure_bind] at h ⊢
    obtain ⟨_, -, h⟩ := bind_eq_ok.1 h
    cases h
    rfl

theorem eq_of_evaluateVariables_eq_ok {n : Nat} {scheme : Scheme} {g : GraphOperator α}
    {schedule : Schedule} {x : Array α} {y y' y₁ y₁' : Vector α k} {z z₁ z₁' : Vector α n}
    (h : evaluateVariables scheme g schedule x y z = .ok (y₁, z₁))
    (h' : evaluateVariables scheme g schedule x y' z = .ok (y₁', z₁')) : z₁ = z₁' := by
  unfold evaluateVariables at h h'
  generalize List.range (x.size / n) = vars at h h'
  induction vars generalizing y y' z with
  | nil =>
    cases h
    cases h'
    rfl
  | cons var vars ih =>
    rw [List.foldlM_cons] at h h'
    obtain ⟨⟨y₂, z₂⟩, hvar, h⟩ := bind_eq_ok.1 h
    obtain ⟨⟨y₂', z₂'⟩, hvar', h'⟩ := bind_eq_ok.1 h'
    have hz := (scratch_of_evaluateVariable hvar).symm.trans (scratch_of_evaluateVariable hvar')
    obtain rfl := Except.ok.inj hz
    exact ih h h'

namespace Evolution

variable {e : Evolution α}

theorem memory_replaceRates_eq (he : e.graph.Accepted)
    (hsize : e.stateSize = .ok (e.numVars * e.graph.numNodes))
    (hk : k = e.numVars * e.graph.numNodes) (x y y' : Vector α k) (scratch : Array α) :
    (e.replaceRates x.toArray y scratch).memory = (e.replaceRates x.toArray y' scratch).memory := by
  rw [← hk] at hsize
  by_cases hn : e.graph.numNodes = 0
  · simp only [replaceRates, hsize, x.size_toArray, hn, ne_eq, not_true_eq_false, if_false, if_true]
  · have hdvd : e.graph.numNodes ∣ x.toArray.size :=
      (x.size_toArray.trans hk).symm ▸ Nat.dvd_mul_left _ _
    obtain ⟨y₁, z₁, hrun, -⟩ := he.evaluateVariables_eq e.scheme e.execution hdvd y
      (resized scratch e.graph.numNodes)
    obtain ⟨y₁', z₁', hrun', -⟩ := he.evaluateVariables_eq e.scheme e.execution hdvd y'
      (resized scratch e.graph.numNodes)
    have hz := eq_of_evaluateVariables_eq_ok hrun hrun'
    simp only [replaceRates, hsize, x.size_toArray, hn, ne_eq, not_true_eq_false, if_false, hrun,
      hrun', hz]

theorem replaceRates_of_ne (hsize : e.stateSize = .ok (e.numVars * e.graph.numNodes))
    (hk : k ≠ e.numVars * e.graph.numNodes) (x y : Vector α k) (scratch : Array α) :
    e.replaceRates x.toArray y scratch =
      ⟨.error (.refused (.stateSizeMismatch (e.numVars * e.graph.numNodes) k)), y, scratch⟩ := by
  rw [replaceRates_of_size_ne hsize y scratch (x.size_toArray.trans_ne hk), x.size_toArray]

theorem overwrites (he : e.graph.Accepted)
    (hsize : e.stateSize = .ok (e.numVars * e.graph.numNodes)) :
    (RateFunction.ofEvolution e).Overwrites where
  outcome_eq {k} x y y' scratch := by
    by_cases hk : k = e.numVars * e.graph.numNodes
    · exact (replaceRates_eq he hsize hk x y scratch).1.trans
        (replaceRates_eq he hsize hk x y' scratch).1.symm
    · simp only [RateFunction.ofEvolution, replaceRates_of_ne hsize hk]
  memory_eq {k} x y y' scratch hok := by
    by_cases hk : k = e.numVars * e.graph.numNodes
    · exact memory_replaceRates_eq he hsize hk x y y' scratch
    · simp only [RateFunction.ofEvolution, replaceRates_of_ne hsize hk] at hok
      cases hok
  rates_eq {k} x y y' scratch hok := by
    by_cases hk : k = e.numVars * e.graph.numNodes
    · exact (replaceRates_eq he hsize hk x y scratch).2.trans
        (replaceRates_eq he hsize hk x y' scratch).2.symm
    · simp only [RateFunction.ofEvolution, replaceRates_of_ne hsize hk] at hok
      cases hok

end Evolution

end GraphTransport
