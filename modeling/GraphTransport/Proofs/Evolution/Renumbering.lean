import GraphTransport.Proofs.Evolution.TotalMass
import GraphTransport.Proofs.Graph.Renumbering
import GraphTransport.Proofs.Scheme.Fluxes
import GraphTransport.Proofs.Scheme.LimitedFluxes

namespace GraphTransport

theorem sum_range_perm {M : Type} [AddCommMonoid M] {s : Equiv.Perm Nat} {n : Nat}
    (hs : ∀ i, s i < n ↔ i < n) (f : Nat → M) :
    ∑ j ∈ Finset.range n, f j = ∑ i ∈ Finset.range n, f (s i) := by
  refine (Finset.sum_equiv s (fun i ↦ ?_) fun i _ ↦ rfl).symm
  rw [Finset.mem_range, Finset.mem_range, hs]

variable {F : Type} [Field F] [LinearOrder F] {s : Equiv.Perm Nat}

def RenumbersBlocks {α : Type} (s : Equiv.Perm Nat) (n : Nat) (x x' : Array α) : Prop :=
  x'.size = x.size ∧ ∀ var, ∀ i < n, x'[var * n + s i]? = x[var * n + i]?

theorem RenumbersValues.valueAt_eq {x x' : Array F} (h : RenumbersValues s x x') (i : Nat) :
    valueAt x' (s i) = valueAt x i := by
  rw [valueAt, valueAt, Array.getD_eq_getD_getElem?, Array.getD_eq_getD_getElem?, h]

theorem RenumbersBlocks.variableAt_eq {n : Nat} {x x' : Array F} (h : RenumbersBlocks s n x x')
    (var : Nat) {i : Nat} (hi : i < n) : variableAt x' n var (s i) = variableAt x n var i := by
  rw [variableAt, variableAt, Array.getD_eq_getD_getElem?, Array.getD_eq_getD_getElem?,
    h.2 var i hi]

/-- What is computed on `g'` is what is computed on `g`, at the other numbers of the nodes. -/
structure GraphOperator.AnswersAlike (s : Equiv.Perm Nat) (g g' : GraphOperator F) : Prop where
  rowRate : ∀ (scheme : Scheme) x x' z z', x.size = g.numNodes → z.size = g.numNodes →
    RenumbersValues s x x' → RenumbersValues s z z' → ∀ i < g.numNodes, ∃ rate,
      scheme.rowRate g x z i = .ok rate ∧ scheme.rowRate g' x' z' (s i) = .ok rate
  evaluate : ∀ (scheme : Scheme) (sizes : SizeArithmetic) numVars, numVars ≠ 0 →
    sizes.Fits numVars g.numNodes → ∀ x x', x.size = numVars * g.numNodes →
      RenumbersBlocks s g.numNodes x x' → ∃ y y',
        evaluate sizes scheme g numVars x = .ok y ∧ evaluate sizes scheme g' numVars x' = .ok y' ∧
          RenumbersBlocks s g.numNodes y y'
  localBounds : ∀ x x', x.size = g.numNodes → RenumbersValues s x x' → ∀ i < g.numNodes, ∃ bounds,
    g.localBounds i x = .ok bounds ∧ g'.localBounds (s i) x' = .ok bounds
  viscosity : ∀ i j, g'.viscosity? (s i) (s j) = g.viscosity? i j
  limitedFluxes : ∀ x x' z z', x.size = g.numNodes → z.size = g.numNodes → RenumbersValues s x x' →
    RenumbersValues s z z' → ∃ fluxes fluxes', g.limitedFluxes x z = .ok fluxes ∧
      g'.limitedFluxes x' z' = .ok fluxes' ∧ ∀ i j p, g.pattern.Stores i j p →
        ∃ p' flux, g'.pattern.Stores (s i) (s j) p' ∧ fluxes[p]? = some flux ∧
          fluxes'[p']? = some flux
  stableTimeStep : ∃ limit, g.stableTimeStep? = .ok limit ∧ g'.stableTimeStep? = .ok limit
  totalMass : ∀ (sizes : SizeArithmetic) numVars, numVars ≠ 0 →
    sizes.Fits numVars g.numNodes → ∀ x x', x.size = numVars * g.numNodes →
      RenumbersBlocks s g.numNodes x x' → ∃ totals,
        g.totalMass sizes x numVars = .ok totals ∧ g'.totalMass sizes x' numVars = .ok totals

namespace GraphOperator.Renumbers

variable {g g' : GraphOperator F} (h : g.Renumbers s g') {u u' z z' : Nat → F} {i : Nat}
include h

theorem boundsAt_eq (hu : ∀ j < g.numNodes, u' (s j) = u j) (hi : i < g.numNodes) :
    g'.boundsAt u' (s i) = g.boundsAt u i := by
  have hneighbors (P : F → Prop) :
      (∀ j ∈ g'.neighbors (s i), P (u' j)) ↔ ∀ j ∈ g.neighbors i, P (u j) := by
    rw [← s.forall_congr_right]
    refine forall_congr' fun j ↦ ?_
    rw [h.mem_neighbors_iff]
    exact forall_congr' fun hj ↦ by rw [hu j (lt_of_mem_neighbors hj)]
  have hlower : (g'.boundsAt u' (s i)).lower = (g.boundsAt u i).lower := by
    apply eq_of_forall_le_iff
    intro c
    rw [le_lower_boundsAt_iff, le_lower_boundsAt_iff, hu i hi, hneighbors (c ≤ ·)]
  have hupper : (g'.boundsAt u' (s i)).upper = (g.boundsAt u i).upper := by
    apply eq_of_forall_ge_iff
    intro c
    rw [upper_boundsAt_le_iff, upper_boundsAt_le_iff, hu i hi, hneighbors (· ≤ c)]
  exact congrArg₂ Bounds.mk hlower hupper

theorem endAt_eq (hu : ∀ j < g.numNodes, u' (s j) = u j) (hz : ∀ j < g.numNodes, z' (s j) = z j)
    (hi : i < g.numNodes) : g'.endAt u' z' (s i) = g.endAt u z i := by
  rw [endAt, endAt, h.boundsAt_eq hu hi, hu i hi, hz i hi]

theorem sum_edges_eq (f : Nat → Edge F → F) (i : Nat) :
    ∑ j ∈ Finset.range g'.numNodes, (g'.edge? (s i) j).elim 0 (f j) =
      ∑ j ∈ Finset.range g.numNodes, (g.edge? i j).elim 0 fun e ↦ f (s j) (e.renumber s) := by
  rw [h.numNodes_eq, sum_range_perm fun j ↦ h.lt_iff]
  refine Finset.sum_congr rfl fun j _ ↦ ?_
  rw [h.edge?_eq, Option.elim_map]
  rfl

theorem rateAt_eq (scheme : Scheme) (hu : ∀ j < g.numNodes, u' (s j) = u j)
    (hz : ∀ j < g.numNodes, z' (s j) = z j) (hi : i < g.numNodes) :
    scheme.rateAt g' u' z' (s i) = scheme.rateAt g u z i := by
  rw [scheme.rateAt_eq_sum, scheme.rateAt_eq_sum, h.sum_edges_eq, h.lumpedAt_eq, hu i hi,
    h.endAt_eq hu hz hi]
  congr 1
  refine Finset.sum_congr rfl fun j hj ↦ ?_
  have hj := Finset.mem_range.1 hj
  rw [hu j hj, h.endAt_eq hu hz hj]
  cases scheme <;> rfl

theorem rate_eq (scheme : Scheme) (hu : ∀ j < g.numNodes, u' (s j) = u j) (hi : i < g.numNodes) :
    scheme.rate g' u' (s i) = scheme.rate g u i :=
  h.rateAt_eq scheme hu (fun _ hj ↦ h.rateAt_eq .lowOrder hu hu hj) hi

theorem fluxAt_eq (hu : ∀ j < g.numNodes, u' (s j) = u j) (hz : ∀ j < g.numNodes, z' (s j) = z j)
    (hi : i < g.numNodes) {j : Nat} (hj : j < g.numNodes) :
    g'.fluxAt u' z' (s i) (s j) = g.fluxAt u z i j := by
  rw [fluxAt, fluxAt, h.edge?_eq, Option.elim_map, h.endAt_eq hu hz hi, h.endAt_eq hu hz hj]
  rfl

theorem massOf_eq (hu : ∀ j < g.numNodes, u' (s j) = u j) : g'.massOf u' = g.massOf u := by
  rw [massOf, massOf, h.numNodes_eq, sum_range_perm fun j ↦ h.lt_iff]
  refine Finset.sum_congr rfl fun j hj ↦ ?_
  rw [h.lumpedAt_eq, hu j (Finset.mem_range.1 hj)]

theorem rowTimeStepAt_eq : g'.rowTimeStepAt (s i) = g.rowTimeStepAt i := by
  have hsum : g'.viscositySumAt (s i) = g.viscositySumAt i := by
    rw [viscositySumAt_eq_sum, viscositySumAt_eq_sum]
    exact h.sum_edges_eq (fun _ ↦ Edge.viscosity) i
  rw [rowTimeStepAt, rowTimeStepAt, hsum, h.lumpedAt_eq]

theorem componentRate_eq (scheme : Scheme) {x x' : Array F} (hs : RenumbersBlocks s g.numNodes x x')
    (var : Nat) {i : Nat} (hi : i < g.numNodes) :
    scheme.componentRate g' x' (var * g.numNodes + s i) =
      scheme.componentRate g x (var * g.numNodes + i) := by
  have hi' : s i < g'.numNodes := by rwa [h.numNodes_eq, h.lt_iff]
  rw [← h.numNodes_eq, scheme.componentRate_block g' x' var hi', h.numNodes_eq,
    scheme.componentRate_block g x var hi]
  exact h.rate_eq scheme (fun _ ↦ hs.variableAt_eq var) hi

theorem exists_evaluate (scheme : Scheme) {sizes : SizeArithmetic} {numVars : Nat}
    (hvars : numVars ≠ 0) (hsizes : sizes.Fits numVars g.numNodes) {x x' : Array F}
    (hx : x.size = numVars * g.numNodes) (hs : RenumbersBlocks s g.numNodes x x') :
    ∃ y y', evaluate sizes scheme g numVars x = .ok y ∧
      evaluate sizes scheme g' numVars x' = .ok y' ∧ RenumbersBlocks s g.numNodes y y' := by
  have hx' : x'.size = numVars * g'.numNodes := by rw [hs.1, hx, h.numNodes_eq]
  have hsize' : sizes.mul numVars g'.numNodes = .ok (numVars * g'.numNodes) := by
    rw [h.numNodes_eq, hsizes.mul_eq]
  refine ⟨_, _, h.accepted.evaluate_eq scheme hvars hsizes.mul_eq hx,
    h.accepted'.evaluate_eq scheme hvars hsize' hx', ?_, fun var i hi ↦ ?_⟩
  · rw [Array.size_ofFn, Array.size_ofFn, hs.1]
  · have hlt : var * g.numNodes + s i < x'.size ↔ var * g.numNodes + i < x.size := by
      rw [← not_le, ← not_le, ← Array.getElem?_eq_none_iff, ← Array.getElem?_eq_none_iff,
        hs.2 var i hi]
    rw [Array.getElem?_ofFn, Array.getElem?_ofFn]
    simp only [hlt, h.componentRate_eq scheme hs var hi]

theorem exists_limitedFluxes {x x' z z' : Array F} (hx : x.size = g.numNodes)
    (hz : z.size = g.numNodes) (hsx : RenumbersValues s x x') (hsz : RenumbersValues s z z') :
    ∃ fluxes fluxes', g.limitedFluxes x z = .ok fluxes ∧ g'.limitedFluxes x' z' = .ok fluxes' ∧
      ∀ i j p, g.pattern.Stores i j p → ∃ p' flux, g'.pattern.Stores (s i) (s j) p' ∧
        fluxes[p]? = some flux ∧ fluxes'[p']? = some flux := by
  obtain ⟨fluxes, hfluxes, -, hflux⟩ := h.accepted.exists_limitedFluxes hx hz
  obtain ⟨fluxes', hfluxes', -, hflux'⟩ := h.accepted'.exists_limitedFluxes
    (hsx.size_eq.trans (hx.trans h.numNodes_eq.symm))
    (hsz.size_eq.trans (hz.trans h.numNodes_eq.symm))
  refine ⟨fluxes, fluxes', hfluxes, hfluxes', fun i j p hp ↦ ?_⟩
  obtain ⟨p', hp'⟩ := (h.mass.stored_iff i j).2 ⟨p, hp⟩
  have hfind := SparsityPattern.stores_iff_find?.1 hp
  obtain ⟨hi, hj, -⟩ := h.accepted.lt_numNodes_of_find? hfind
  refine ⟨p', _, hp', hflux i j p hfind, ?_⟩
  rw [hflux' _ _ p' (SparsityPattern.stores_iff_find?.1 hp'),
    h.fluxAt_eq (fun j _ ↦ hsx.valueAt_eq j) (fun j _ ↦ hsz.valueAt_eq j) hi hj]

theorem exists_totalMass {sizes : SizeArithmetic} {numVars : Nat} (hvars : numVars ≠ 0)
    (hsizes : sizes.Fits numVars g.numNodes) {x x' : Array F}
    (hx : x.size = numVars * g.numNodes) (hs : RenumbersBlocks s g.numNodes x x') :
    ∃ totals, g.totalMass sizes x numVars = .ok totals ∧
      g'.totalMass sizes x' numVars = .ok totals := by
  have hx' : x'.size = numVars * g'.numNodes := by rw [hs.1, hx, h.numNodes_eq]
  have hsizes' : sizes.Fits numVars g'.numNodes := by rwa [h.numNodes_eq]
  refine ⟨_, totalMass_eq hvars hsizes hx, ?_⟩
  rw [totalMass_eq hvars hsizes' hx']
  congr 2
  refine List.map_congr_left fun var _ ↦ ?_
  rw [h.numNodes_eq]
  exact h.massOf_eq fun _ ↦ hs.variableAt_eq var

variable [IsStrictOrderedRing F]

theorem timeStepLimit_eq : g'.timeStepLimit = g.timeStepLimit := by
  have hle (dt : F) : (∀ limit ∈ g'.timeStepLimit, dt ≤ limit) ↔
      ∀ limit ∈ g.timeStepLimit, dt ≤ limit := by
    rw [le_timeStepLimit_iff_rows, le_timeStepLimit_iff_rows, h.numNodes_eq,
      ← s.forall_congr_right]
    simp only [h.lt_iff, h.rowTimeStepAt_eq]
  exact eq_of_forall_le_mem_iff hle

theorem answersAlike : g.AnswersAlike s g' where
  rowRate scheme x x' z z' hx hz hsx hsz i hi := by
    have hi' : s i < g'.numNodes := by rwa [h.numNodes_eq, h.lt_iff]
    have hx' : g'.numNodes ≤ x'.size := by rw [h.numNodes_eq, hsx.size_eq, hx]
    have hz' : g'.numNodes ≤ z'.size := by rw [h.numNodes_eq, hsz.size_eq, hz]
    refine ⟨_, h.accepted.rowRate_eq scheme hi hx.ge fun _ ↦ hz.ge, ?_⟩
    rw [h.accepted'.rowRate_eq scheme hi' hx' fun _ ↦ hz',
      h.rateAt_eq scheme (fun j _ ↦ hsx.valueAt_eq j) (fun j _ ↦ hsz.valueAt_eq j) hi]
  evaluate scheme _ _ hvars hsizes _ _ := h.exists_evaluate scheme hvars hsizes
  localBounds x x' hx hs i hi := by
    have hi' : s i < g'.numNodes := by rwa [h.numNodes_eq, h.lt_iff]
    have hx' : g'.numNodes ≤ x'.size := by rw [h.numNodes_eq, hs.size_eq, hx]
    refine ⟨_, h.accepted.localBounds_eq hi hx.ge, ?_⟩
    rw [h.accepted'.localBounds_eq hi' hx']
    exact congrArg _ (h.boundsAt_eq (fun j _ ↦ hs.valueAt_eq j) hi)
  viscosity _ _ := h.viscosity?_eq
  limitedFluxes _ _ _ _ := h.exists_limitedFluxes
  stableTimeStep :=
    ⟨_, h.accepted.stableTimeStep?_eq, h.timeStepLimit_eq ▸ h.accepted'.stableTimeStep?_eq⟩
  totalMass _ _ hvars hsizes _ _ := h.exists_totalMass hvars hsizes

end GraphOperator.Renumbers

namespace GraphOperator

variable [IsStrictOrderedRing F]

/-- Renumbering the nodes of the matrices, of the lumped mass and of the states changes neither
whether the matrices are accepted nor anything that is computed. -/
theorem answersAlike_of_renumbers {mass mass' advection advection' : CsrMatrix F}
    {lumped lumped' : Array F} (hmass : mass.Renumbers s mass')
    (hadvection : advection.Renumbers s advection') (hsize : lumped'.size = lumped.size)
    (hlumped : lumped.size = mass.numRows → RenumbersValues s lumped lumped') :
    ((∃ g, withLumpedMass mass advection lumped = .ok g) ↔
      ∃ g', withLumpedMass mass' advection' lumped' = .ok g') ∧
    ∀ g g', withLumpedMass mass advection lumped = .ok g →
      withLumpedMass mass' advection' lumped' = .ok g' → g.AnswersAlike s g' := by
  refine ⟨exists_withLumpedMass_renumbered_iff hmass hadvection hsize hlumped, ?_⟩
  intro g g' hg hg'
  obtain ⟨rfl, rfl, rfl, haccepted⟩ := withLumpedMass_eq_ok_iff.1 hg
  obtain ⟨rfl, rfl, rfl, haccepted'⟩ := withLumpedMass_eq_ok_iff.1 hg'
  have h : g.Renumbers s g' :=
    ⟨haccepted, haccepted', hmass, hadvection, hlumped haccepted.size_lumped⟩
  exact h.answersAlike

theorem answersAlike_of_renumbers_triangle : ∃ g',
    withLumpedMass (triangleMass.renumber (Equiv.swap 0 1))
      (triangleAdvection.renumber (Equiv.swap 0 1)) (renumberValues (Equiv.swap 0 1) #[1, 2, 3]) =
        .ok g' ∧ triangle.AnswersAlike (Equiv.swap 0 1) g' := by
  have hs (i : Nat) : Equiv.swap 0 1 i < 3 ↔ i < 3 := by
    rw [Equiv.swap_apply_def]
    split_ifs <;> omega
  have hlumped := renumbersValues_renumberValues (x := (#[1, 2, 3] : Array ℚ)) hs
  obtain ⟨hiff, h⟩ := answersAlike_of_renumbers
    (CsrMatrix.renumbers_renumber (M := triangleMass) hs hs)
    (CsrMatrix.renumbers_renumber (M := triangleAdvection) hs hs) hlumped.size_eq fun _ ↦ hlumped
  obtain ⟨g', hg'⟩ := hiff.1 ⟨triangle, withLumpedMass_triangle⟩
  exact ⟨g', hg', h triangle g' withLumpedMass_triangle hg'⟩

end GraphOperator

end GraphTransport
