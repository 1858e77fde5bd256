import Mathlib.Analysis.SpecialFunctions.Exp
import GraphTransport.Proofs.Simulation.Completion

namespace GraphTransport

section Means

variable {F : Type} [Field F] [LinearOrder F] [IsStrictOrderedRing F]

theorem four_div_add_le {a b : F} (ha : 0 < a) (hb : 0 < b) : 4 / (a + b) ≤ 1 / a + 1 / b := by
  rw [one_div_add_one_div ha.ne' hb.ne', div_le_div_iff₀ (add_pos ha hb) (mul_pos ha hb),
    ← mul_assoc, ← sq]
  exact four_mul_le_sq_add a b

theorem bump_exponent_nonpos {x : F} (hleft : 0.5 < x) (hright : x < 0.9) :
    10 + 1 / (0.5 - x) + 1 / (x - 0.9) ≤ 0 := by
  -- The mean of the reciprocals is at least the reciprocal of the mean of the distances.
  have hmean := four_div_add_le (sub_pos.2 hleft) (sub_pos.2 hright)
  have hwidth : x - 0.5 + (0.9 - x) = (0.4 : F) := by norm_num
  have hten : (4 : F) / 0.4 = 10 := by norm_num
  rw [hwidth, hten] at hmean
  have hfirst : 1 / (0.5 - x) = -(1 / (x - 0.5)) := by rw [← neg_sub x, one_div_neg_eq_neg_one_div]
  have hsecond : 1 / (x - 0.9) = -(1 / (0.9 - x)) := by
    rw [← neg_sub 0.9, one_div_neg_eq_neg_one_div]
  rw [hfirst, hsecond]
  linarith

end Means

namespace Problem

section Values

variable (x : ℝ)

theorem bumpAndStepValue_mem :
    (letI : ExpScalar ℝ := .ofField Real.exp; bumpAndStepValue x) ∈ Set.Icc 0 1 := by
  let : ExpScalar ℝ := .ofField Real.exp
  have hzero : (0.0 : ℝ) = 0 := by norm_num
  have hone : (1.0 : ℝ) = 1 := by norm_num
  have hten : (10.0 : ℝ) = 10 := by norm_num
  by_cases hbump : 0.5 < x ∧ x < 0.9
  · have hvalue : bumpAndStepValue x = Real.exp (10 + 1 / (0.5 - x) + 1 / (x - 0.9)) := by
      rw [Real.exp_add, Real.exp_add, ← hten, ← hone]
      exact if_pos hbump
    rw [hvalue]
    exact ⟨(Real.exp_pos _).le, Real.exp_le_one_iff.2 (bump_exponent_nonpos hbump.1 hbump.2)⟩
  · by_cases hstep : 0.2 < x ∧ x < 0.4
    · have hvalue : bumpAndStepValue x = 1 :=
        (if_neg hbump).trans ((if_pos hstep).trans hone)
      rw [hvalue]
      exact ⟨zero_le_one, le_rfl⟩
    · have hvalue : bumpAndStepValue x = 0 :=
        (if_neg hbump).trans ((if_neg hstep).trans hzero)
      rw [hvalue]
      exact ⟨le_rfl, zero_le_one⟩

theorem gaussianValue_mem (length : ℝ) :
    (letI : ExpScalar ℝ := .ofField Real.exp; gaussianValue length x) ∈ Set.Icc 0 1 := by
  refine ⟨(Real.exp_pos _).le, Real.exp_le_one_iff.2 ?_⟩
  exact mul_nonpos_of_nonpos_of_nonneg (by norm_num) (mul_self_nonneg _)

end Values

variable {problem : Problem} {segment : PeriodicSegment ℝ} {n node : Nat}

theorem initialValue_mem (problem : Problem) (segment : PeriodicSegment ℝ) (x : ℝ) :
    (letI : ExpScalar ℝ := .ofField Real.exp; problem.initialValue segment x) ∈ Set.Icc 0 1 := by
  cases problem with
  | bumpAndStep => exact bumpAndStepValue_mem x
  | gaussian => exact gaussianValue_mem x segment.length

theorem initialComponent_eq (problem : Problem) (hnode : node < segment.numNodes) (n : Nat) :
    let : ExpScalar ℝ := .ofField Real.exp
    problem.initialComponent segment (node + n * segment.numNodes) =
      (-1) ^ n * problem.initialValue segment (node * segment.length / segment.numCells) := by
  intro this
  have hmod : (node + n * segment.numNodes) % segment.numNodes = node := by
    rw [Nat.add_mul_mod_self_right, Nat.mod_eq_of_lt hnode]
  have hdiv : (node + n * segment.numNodes) / segment.numNodes = n := by
    rw [Nat.add_mul_div_right _ _ (Nat.zero_lt_of_lt hnode), Nat.div_eq_of_lt hnode, Nat.zero_add]
  have hcoordinate : segment.nodeCoordinate node = node * segment.length / segment.numCells :=
    (mul_div_assoc _ _ _).symm
  rw [initialComponent, hmod, hdiv, hcoordinate]
  rcases Nat.even_or_odd n with hn | hn
  · rw [if_pos (Nat.even_iff.1 hn), hn.neg_one_pow, one_mul]
  · rw [if_neg (Nat.odd_iff.1 hn ▸ one_ne_zero), hn.neg_one_pow, neg_one_mul]

/-- The initial values of both problems lie between zero and one, whatever the quotients by zero
are. The initial state has a component for each variable at each node, with the sign of the
variable, and it is the same however lengths are counted, as long as it can be held. -/
theorem initialState_of_create {numCells : Nat} {length : ℝ}
    (hsegment : PeriodicSegment.create numCells length = .ok segment) (problem : Problem)
    (atZero : ℝ → ℝ) :
    let value : ℝ → ℝ :=
      letI : ExpScalar ℝ := .exact Real.exp atZero; problem.initialValue segment
    let state (sizes : SizeArithmetic) : Except Violation (Array ℝ) :=
      letI : ExpScalar ℝ := .exact Real.exp atZero; problem.initialState sizes segment
    (∀ x, 0 ≤ value x ∧ value x ≤ 1) ∧
    ∃ u, state .exact = .ok u ∧ u.size = problem.numVars * numCells ∧
      (∀ n < problem.numVars, ∀ node < numCells,
        u[node + n * numCells]? = some ((-1) ^ n * value (node * length / numCells))) ∧
      ∀ sizes : SizeArithmetic,
        sizes.mul problem.numVars numCells = .ok (problem.numVars * numCells) →
        sizes.canHold numCells → sizes.canHold (problem.numVars * numCells) →
          state sizes = .ok u := by
  obtain ⟨htwo, hlength, rfl⟩ := PeriodicSegment.create_eq_ok_iff.1 hsegment
  let segment : PeriodicSegment ℝ := ⟨numCells, length⟩
  have hcells : segment.numNodes ≠ 0 := (two_pos.trans_le htwo).ne'
  have hvalue : (letI : ExpScalar ℝ := .exact Real.exp atZero; problem.initialValue segment) =
      (letI : ExpScalar ℝ := .ofField Real.exp; problem.initialValue segment) :=
    initialValue_exact hlength.ne' problem
  have hstate (sizes : SizeArithmetic) :
      (letI : ExpScalar ℝ := .exact Real.exp atZero; problem.initialState sizes segment) =
        (letI : ExpScalar ℝ := .ofField Real.exp; problem.initialState sizes segment) :=
    initialState_exact hcells hlength.ne' sizes problem
  simp only [segment] at hvalue hstate
  simp only [hvalue, hstate]
  let : ExpScalar ℝ := .ofField Real.exp
  refine ⟨problem.initialValue_mem segment, _,
    problem.initialState_eq hcells rfl rfl rfl, ?_, ?_, ?_⟩
  · rw [List.size_toArray, List.length_map, List.length_range]
    rfl
  · intro n hn node hnode
    have hposition : node + n * numCells < problem.numVars * segment.numNodes := by
      rw [Nat.add_comm]
      exact block_lt hn hnode
    rw [List.getElem?_toArray, List.getElem?_map, List.getElem?_range hposition, Option.map_some]
    exact congrArg some (problem.initialComponent_eq hnode n)
  · intro sizes hmul hnodes hhold
    exact problem.initialState_eq hcells hmul hnodes hhold

theorem initialState_of_create_peak :
    ∃ u, (letI : ExpScalar ℝ := .exact Real.exp fun _ ↦ 7;
        gaussian.initialState .word64 (⟨4, 2⟩ : PeriodicSegment ℝ)) = .ok u ∧
      u.size = 8 ∧ u[3]? = some (1 : ℝ) ∧ u[7]? = some (-1 : ℝ) := by
  have hsegment : PeriodicSegment.create 4 2 = .ok (⟨4, 2⟩ : PeriodicSegment ℝ) :=
    PeriodicSegment.create_eq_ok_iff.2 ⟨by decide, two_pos, rfl⟩
  obtain ⟨-, u, -, hsize, hcomponents, hsizes⟩ :=
    initialState_of_create hsegment gaussian fun _ ↦ 7
  have hpeak : (letI : ExpScalar ℝ := .exact Real.exp fun _ ↦ 7;
      gaussian.initialValue (⟨4, 2⟩ : PeriodicSegment ℝ)) ((3 : Nat) * 2 / (4 : Nat)) = 1 := by
    rw [initialValue_exact (two_ne_zero : (⟨4, 2⟩ : PeriodicSegment ℝ).length ≠ 0)]
    refine (congrArg Real.exp ?_).trans Real.exp_zero
    norm_num
  have hfirst := hcomponents 0 (by decide) 3 (by decide)
  have hsecond := hcomponents 1 (by decide) 3 (by decide)
  rw [hpeak] at hfirst hsecond
  refine ⟨u, hsizes .word64 rfl rfl rfl, hsize, ?_, ?_⟩
  · simpa using hfirst
  · simpa using hsecond

end Problem

end GraphTransport
