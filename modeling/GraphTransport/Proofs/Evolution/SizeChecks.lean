import GraphTransport.Proofs.Evolution.Agreement
import GraphTransport.Proofs.Evolution.TotalMass

namespace GraphTransport

variable {α : Type} [Scalar α]

/-- Lengths are 64-bit words, and a product past their range is never the exact one. -/
structure SizeArithmetic.IsWord64 (sizes : SizeArithmetic) : Prop where
  mul_eq_iff : ∀ m n, sizes.mul m n = .ok (m * n) ↔ m * n < 2 ^ 64
  canHold_iff : ∀ n, sizes.canHold n ↔ 8 * n < 2 ^ 63

theorem SizeArithmetic.isWord64_word64 : word64.IsWord64 where
  mul_eq_iff m n := by
    constructor
    · intro h
      by_contra hoverflow
      have hmul : word64.mul m n = .error .productOverflow := if_neg hoverflow
      rw [hmul] at h
      cases h
    · exact fun h ↦ if_pos h
  canHold_iff _ := decide_eq_true_iff

theorem SizeArithmetic.isWord64_wrapping64 : wrapping64.IsWord64 where
  mul_eq_iff m n := by
    have hmul : wrapping64.mul m n = .ok (m * n % 2 ^ 64) := rfl
    rw [hmul, Except.ok.injEq]
    exact Nat.mod_eq_iff_lt (Nat.two_pow_pos 64).ne'
  canHold_iff _ := decide_eq_true_iff

namespace Evolution

variable {e : Evolution α}

def part (e : Evolution α) (x : Array α) (var : Nat) : Array α :=
  x.extract (var * e.graph.numNodes) ((var + 1) * e.graph.numNodes)

/-- A state is taken, and every variable has the rates and the mass that it has by itself. -/
structure Takes (e : Evolution α) (x : Array α) : Prop where
  evaluated : ∃ y, GraphTransport.evaluate e.sizes e.scheme e.graph e.numVars x = .ok y ∧
    y.size = e.numVars * e.graph.numNodes ∧ ∀ var < e.numVars,
      (e.part x var).size = e.graph.numNodes ∧
      GraphTransport.evaluate e.sizes e.scheme e.graph 1 (e.part x var) = .ok (e.part y var)
  replaced : ∀ execution scratch (y : Vector α x.size),
    let result := (e.withExecution execution).replaceRates x y scratch
    result.outcome = .ok () ∧
      GraphTransport.evaluate e.sizes e.scheme e.graph e.numVars x = .ok result.rates.toArray
  weighed : ∃ totals, e.graph.totalMass e.sizes x e.numVars = .ok totals ∧
    totals.size = e.numVars ∧ ∀ var < e.numVars,
      totals[var]? = some (e.graph.weightedSum (e.part x var))

/-- A state is refused for its length, and the length that it should have is reported. -/
structure Refuses (e : Evolution α) (x : Array α) : Prop where
  evaluated : GraphTransport.evaluate e.sizes e.scheme e.graph e.numVars x =
    .error (.refused (.stateSizeMismatch (e.numVars * e.graph.numNodes) x.size))
  replaced : ∀ execution scratch {k : Nat} (y : Vector α k),
    (e.withExecution execution).replaceRates x y scratch =
      ⟨.error (.refused (.stateSizeMismatch (e.numVars * e.graph.numNodes) x.size)), y, scratch⟩
  weighed : e.graph.totalMass e.sizes x e.numVars =
    .error (.refused (.stateSizeMismatch (e.numVars * e.graph.numNodes) x.size))

/-- Of all states that can be held those with `e.numVars` values at every node are taken, and the
others are refused. -/
def ExactSizeChecks (e : Evolution α) : Prop :=
  ∀ x : Array α, e.sizes.canHold x.size →
    (x.size = e.numVars * e.graph.numNodes → e.Takes x) ∧
    (x.size ≠ e.numVars * e.graph.numNodes → e.Refuses x)

theorem refuses_of_size_ne (hvars : e.numVars ≠ 0)
    (hmul : e.stateSize = .ok (e.numVars * e.graph.numNodes)) {x : Array α}
    (hx : x.size ≠ e.numVars * e.graph.numNodes) : e.Refuses x where
  evaluated := GraphTransport.evaluate_of_size_ne hvars hmul hx
  replaced execution scratch {k} y := by
    exact replaceRates_of_size_ne (e := e.withExecution execution) hmul y scratch hx
  weighed := GraphOperator.totalMass_of_size_ne hvars hmul hx

theorem evaluate_part (he : e.graph.Accepted)
    (hone : e.sizes.mul 1 e.graph.numNodes = .ok e.graph.numNodes) {x : Array α}
    (hx : x.size = e.numVars * e.graph.numNodes) {var : Nat} (hvar : var < e.numVars) :
    (e.part x var).size = e.graph.numNodes ∧
      GraphTransport.evaluate e.sizes e.scheme e.graph 1 (e.part x var) =
        .ok (e.part (e.rates ⟨x, rfl⟩).toArray var) := by
  have hblock : (var + 1) * e.graph.numNodes ≤ x.size :=
    (Nat.mul_le_mul_right _ hvar).trans_eq hx.symm
  have hsize : (e.part x var).size = e.graph.numNodes := size_block hblock
  refine ⟨hsize, ?_⟩
  rw [he.evaluate_one e.scheme hone hsize, part, part, extract_rates ⟨x, rfl⟩ hx hvar]
  congr 2
  apply List.map_congr_left
  intro i hi
  exact e.scheme.rate_congr (fun j hj ↦ valueAt_extract x hj hblock) (List.mem_range.1 hi)

theorem takes_of_size_eq (he : e.graph.Accepted) (hvars : e.numVars ≠ 0)
    (hmul : e.stateSize = .ok (e.numVars * e.graph.numNodes))
    (hone : e.sizes.mul 1 e.graph.numNodes = .ok e.graph.numNodes)
    (hhold : e.sizes.canHold e.numVars) {x : Array α}
    (hx : x.size = e.numVars * e.graph.numNodes) : e.Takes x := by
  have hrates : GraphTransport.evaluate e.sizes e.scheme e.graph e.numVars x =
      .ok (e.rates ⟨x, rfl⟩).toArray := by
    rw [he.evaluate_eq e.scheme hvars hmul hx]
    rfl
  refine ⟨⟨_, hrates, (Vector.size_toArray _).trans hx, fun var hvar ↦ ?_⟩, ?_, _,
    GraphOperator.totalMass_eq_map hvars ⟨hmul, hhold⟩ hx, ?_, fun var hvar ↦ ?_⟩
  · exact evaluate_part he hone hx hvar
  · intro execution scratch y result
    obtain ⟨hok, hresult⟩ := replaceRates_eq (e := e.withExecution execution) he hmul hx ⟨x, rfl⟩ y
      scratch
    refine ⟨hok, hrates.trans ?_⟩
    rw [hresult]
    rfl
  · simp
  · simp [hvar, part]

theorem stateSize_eq_of_refused {k expected actual : Nat} {x scratch : Array α} {y : Vector α k}
    (h : (e.replaceRates x y scratch).outcome =
      .error (.refused (.stateSizeMismatch expected actual))) : e.stateSize = .ok expected := by
  unfold replaceRates at h
  dsimp only at h
  split at h
  · cases h
  rename_i length hlength
  split at h
  · cases h
    exact hlength
  split at h
  · cases h
  split at h
  · cases h
  split at h <;> cases h

namespace ExactSizeChecks

variable (h : e.ExactSizeChecks) (hnone : e.sizes.canHold 0)

include h hnone

-- The empty state is taken or refused, and either way the length that it is compared with shows.
theorem stateSize_eq : e.stateSize = .ok (e.numVars * e.graph.numNodes) := by
  obtain ⟨htakes, hrefuses⟩ := h #[] hnone
  by_cases hempty : (#[] : Array α).size = e.numVars * e.graph.numNodes
  · obtain ⟨htaken, -⟩ := (htakes hempty).replaced e.execution #[] #v[]
    exact (stateSize_eq_of_ok htaken).trans (congrArg Except.ok hempty)
  · have hrefused := (hrefuses hempty).replaced e.execution #[] #v[]
    exact stateSize_eq_of_refused (congrArg Evaluated.outcome hrefused)

theorem canHold_numVars (hn : e.graph.numNodes = 0) : e.sizes.canHold e.numVars := by
  have hempty : (#[] : Array α).size = e.numVars * e.graph.numNodes := by
    rw [hn, Nat.mul_zero]
    rfl
  obtain ⟨totals, htotals, -⟩ := ((h #[] hnone).1 hempty).weighed
  exact GraphOperator.canHold_of_totalMass_eq_ok htotals

end ExactSizeChecks

/-- With lengths that are 64-bit words, whether an overflow is noticed or wraps around, the checks
are exact just if the length of a state does not overflow and, where there are no nodes, the total
masses can be held. -/
theorem exactSizeChecks_iff {mass advection : CsrMatrix α} {lumped : Array α}
    {g : GraphOperator α} (hg : GraphOperator.withLumpedMass mass advection lumped = .ok g)
    {sizes : SizeArithmetic} (hsizes : sizes = .word64 ∨ sizes = .wrapping64) {scheme : Scheme}
    {numVars : Nat} (he : create sizes scheme g numVars = .ok e) :
    e.ExactSizeChecks ↔
      numVars * g.numNodes < 2 ^ 64 ∧ (g.numNodes = 0 → 8 * numVars < 2 ^ 63) := by
  obtain ⟨hvars, rfl⟩ := create_eq_ok_iff.1 he
  have hg := GraphOperator.accepted_of_withLumpedMass hg
  have hsizes : sizes.IsWord64 := by
    obtain rfl | rfl := hsizes
    · exact SizeArithmetic.isWord64_word64
    · exact SizeArithmetic.isWord64_wrapping64
  constructor
  · intro h
    have hnone : sizes.canHold 0 := (hsizes.canHold_iff 0).2 (by decide)
    exact ⟨(hsizes.mul_eq_iff _ _).1 (h.stateSize_eq hnone),
      fun hn ↦ (hsizes.canHold_iff _).1 (h.canHold_numVars hnone hn)⟩
  · intro ⟨hfits, hempty⟩ x hhold
    have hmul : sizes.mul numVars g.numNodes = .ok (numVars * g.numNodes) :=
      (hsizes.mul_eq_iff _ _).2 hfits
    have hnodes : g.numNodes ≤ numVars * g.numNodes := Nat.le_mul_of_pos_left _ (by omega)
    have hone : sizes.mul 1 g.numNodes = .ok g.numNodes := by
      rw [(hsizes.mul_eq_iff 1 g.numNodes).2 (by omega), Nat.one_mul]
    let e : Evolution α := ⟨scheme, g, numVars, .default, sizes⟩
    refine ⟨fun hx ↦ ?_, refuses_of_size_ne (e := e) hvars hmul⟩
    refine takes_of_size_eq (e := e) hg hvars hmul hone ((hsizes.canHold_iff _).2 ?_) hx
    rcases Nat.eq_zero_or_pos g.numNodes with hn | hn
    · exact hempty hn
    · have hroom := (hsizes.canHold_iff _).1 hhold
      have hstate : numVars ≤ x.size := hx ▸ Nat.le_mul_of_pos_right _ hn
      exact (Nat.mul_le_mul_left 8 hstate).trans_lt hroom

theorem exactSizeChecks_iff_triangle : ∃ e : Evolution ℚ,
    create .word64 .mcl .triangle 2 = .ok e ∧ e.ExactSizeChecks := by
  have he : create .word64 .mcl .triangle 2 =
      .ok (⟨.mcl, .triangle, 2, .serial, .word64⟩ : Evolution ℚ) := rfl
  exact ⟨_, he, (exactSizeChecks_iff GraphOperator.withLumpedMass_triangle (.inl rfl) he).2
    ⟨by decide, by decide⟩⟩

def overflowingVariables : Nat := 6148914691236517206

/-- With so many variables that the length of a state is `2 ^ 64 + 2`, two values are not refused
for their number. If products are checked, the rates and the total mass stop at the product. If
they wrap around, the two values are taken for a state, and no variable is processed. -/
theorem not_exactSizeChecks_triangle :
    overflowingVariables * 3 = 2 ^ 64 + 2 ∧
    (∃ e : Evolution ℚ, create .word64 .lowOrder .triangle overflowingVariables = .ok e ∧
      GraphTransport.evaluate .word64 .lowOrder .triangle overflowingVariables #[1, 1] =
        .error (.broken .productOverflow) ∧
      (e.replaceRates #[1, 1] #v[5, 7] #[]).outcome = .error (.broken .productOverflow) ∧
      e.graph.totalMass .word64 #[1, 1] overflowingVariables = .error (.broken .productOverflow) ∧
      ¬ e.ExactSizeChecks) ∧
    ∃ e : Evolution ℚ, create .wrapping64 .lowOrder .triangle overflowingVariables = .ok e ∧
      GraphTransport.evaluate .wrapping64 .lowOrder .triangle overflowingVariables #[1, 1] =
        .ok #[0, 0] ∧
      (e.replaceRates #[1, 1] #v[5, 7] #[]).outcome = .ok () ∧
      (e.replaceRates #[1, 1] #v[5, 7] #[]).rates = #v[5, 7] ∧ ¬ e.ExactSizeChecks := by
  refine ⟨rfl, ⟨_, rfl, rfl, rfl, rfl, fun h ↦ ?_⟩, _, rfl, rfl, rfl, rfl, fun h ↦ ?_⟩
  · cases h.stateSize_eq rfl
  · cases h.stateSize_eq rfl

end Evolution

end GraphTransport
