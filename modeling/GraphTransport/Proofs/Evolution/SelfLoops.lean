import Mathlib.Order.Lattice
import GraphTransport.Proofs.Evolution.Rates
import GraphTransport.Proofs.Graph.DenseView
import GraphTransport.Proofs.Scheme.LimitedFluxes

namespace GraphTransport

variable {α : Type}

theorem foldl_filter_ne {β σ : Type} [DecidableEq β] {step : σ → β → σ}
    (hcomm : ∀ s a b, step (step s a) b = step (step s b) a) {a : β} {s : σ} (hs : step s a = s)
    (l : List β) : (l.filter (· ≠ a)).foldl step s = l.foldl step s := by
  induction l generalizing s with
  | nil => rfl
  | cons b l ih =>
    by_cases hb : b = a
    · rw [List.filter_cons_of_neg (by simpa using hb), List.foldl_cons, hb, hs, ih hs]
    · have hnext : step (step s b) a = step s b := by rw [hcomm, hs]
      rw [List.filter_cons_of_pos (by simpa using hb), List.foldl_cons, List.foldl_cons, ih hnext]

/-- Minimum and maximum are those of a total order. Of the other operations nothing is known. -/
class OrderedExtremes (α : Type) [Scalar α] : Prop where
  exists_order : ∃ order : LinearOrder α,
    (∀ a b : α, min a b = order.min a b) ∧ ∀ a b : α, max a b = order.max a b

instance {F : Type} [Field F] [LinearOrder F] : OrderedExtremes F :=
  ⟨inferInstance, fun _ _ ↦ rfl, fun _ _ ↦ rfl⟩

namespace Bounds

variable [Scalar α]

def widened (bounds : Bounds α) (v : α) : Bounds α := ⟨min bounds.lower v, max bounds.upper v⟩

variable [OrderedExtremes α]

theorem widened_self (v : α) : (⟨v, v⟩ : Bounds α).widened v = ⟨v, v⟩ := by
  obtain ⟨order, hmin, hmax⟩ := OrderedExtremes.exists_order (α := α)
  rw [widened, hmin, hmax]
  exact congrArg₂ Bounds.mk (min_self v) (max_self v)

theorem widened_comm (bounds : Bounds α) (v w : α) :
    (bounds.widened v).widened w = (bounds.widened w).widened v := by
  obtain ⟨order, hmin, hmax⟩ := OrderedExtremes.exists_order (α := α)
  simp only [widened, hmin, hmax]
  exact congrArg₂ Bounds.mk (min_right_comm bounds.lower v w) (max_right_comm bounds.upper v w)

end Bounds

namespace CsrMatrix

def SameOffDiagonal (M M' : CsrMatrix α) : Prop :=
  ∀ i j v, i ≠ j → (M.Holds i j v ↔ M'.Holds i j v)

theorem SameOffDiagonal.stored_iff {M M' : CsrMatrix α} (h : M.SameOffDiagonal M') {i j : Nat}
    (hij : i ≠ j) : M.pattern.Stored i j ↔ M'.pattern.Stored i j := by
  simp only [stored_iff_exists_holds, h i j _ hij]

theorem sameOffDiagonal_of_value?_eq {M M' : CsrMatrix α} (hrows : M.numRows = M'.numRows)
    (hcols : M.numCols = M'.numCols) (h : ∀ i < M.numRows, ∀ j < M.numCols, i ≠ j →
      M.value? i j = M'.value? i j) : M.SameOffDiagonal M' := by
  intro i j v hij
  by_cases hin : i < M.numRows ∧ j < M.numCols
  · rw [← value?_eq_some_iff, ← value?_eq_some_iff, h i hin.1 j hin.2 hij]
  · have hout (N : CsrMatrix α) (hlt : ¬ (i < N.numRows ∧ j < N.numCols)) : ¬ N.Holds i j v :=
      fun hv ↦ hlt (SparsityPattern.stored_lt (stored_iff_exists_holds.2 ⟨v, hv⟩))
    exact iff_of_false (hout M hin) (hout M' (hrows ▸ hcols ▸ hin))

end CsrMatrix

namespace GraphOperator

variable [Scalar α]

/-- Both graphs are accepted, with the same lumped mass and the same entries off the diagonal. -/
structure SameEdges (g g' : GraphOperator α) : Prop where
  accepted : g.Accepted
  accepted' : g'.Accepted
  mass : g.mass.SameOffDiagonal g'.mass
  advection : g.advection.SameOffDiagonal g'.advection
  lumpedMass : g.lumpedMass = g'.lumpedMass

structure SameAnswers (g g' : GraphOperator α) : Prop where
  localBounds : ∀ x, x.size = g.numNodes → ∀ i < g.numNodes, ∃ bounds,
    g.localBounds i x = .ok bounds ∧ g'.localBounds i x = .ok bounds
  rowRate : ∀ (scheme : Scheme) x z, x.size = g.numNodes → z.size = g.numNodes →
    ∀ i < g.numNodes, ∃ rate,
      scheme.rowRate g x z i = .ok rate ∧ scheme.rowRate g' x z i = .ok rate
  evaluate : ∀ (scheme : Scheme) (sizes : SizeArithmetic) numVars, numVars ≠ 0 →
    sizes.mul numVars g.numNodes = .ok (numVars * g.numNodes) → ∀ x, x.size = numVars * g.numNodes →
      ∃ y, evaluate sizes scheme g numVars x = .ok y ∧ evaluate sizes scheme g' numVars x = .ok y
  limitedFluxes : ∀ x z, x.size = g.numNodes → z.size = g.numNodes → ∃ fluxes fluxes',
    g.limitedFluxes x z = .ok fluxes ∧ g'.limitedFluxes x z = .ok fluxes' ∧
      ∀ i j p, i ≠ j → g.pattern.Stores i j p → ∃ p' flux, g'.pattern.Stores i j p' ∧
        fluxes[p]? = some flux ∧ fluxes'[p']? = some flux
  stableTimeStep : ∃ limit, g.stableTimeStep? = .ok limit ∧ g'.stableTimeStep? = .ok limit

namespace SameEdges

variable {g g' : GraphOperator α} (h : g.SameEdges g')
include h

theorem numNodes_eq : g.numNodes = g'.numNodes := congrArg Array.size h.lumpedMass

theorem lumpedAt_eq (i : Nat) : g.lumpedAt i = g'.lumpedAt i := by
  rw [lumpedAt, lumpedAt, h.lumpedMass]

theorem edge?_eq (i : Nat) : g.edge? i = g'.edge? i := by
  funext j
  ext e
  rw [h.accepted.edge?_eq_some_iff_holds, h.accepted'.edge?_eq_some_iff_holds]
  refine and_congr_right fun _ ↦ and_congr_right fun hji ↦ ?_
  rw [h.mass i j _ hji.symm, h.advection i j _ hji.symm, h.advection j i _ hji]

theorem edgeList_eq (i : Nat) : g.edgeList i = g'.edgeList i := by
  rw [edgeList, edgeList, h.numNodes_eq, h.edge?_eq]

theorem filter_neighbors_eq (i : Nat) :
    (g.neighbors i).filter (· ≠ i) = (g'.neighbors i).filter (· ≠ i) := by
  rw [neighbors, neighbors, List.filter_filter, List.filter_filter, h.numNodes_eq]
  refine List.filter_congr fun j _ ↦ ?_
  by_cases hji : j = i
  · simp [hji]
  · have hstored : (g.pattern.find? i j).isSome = (g'.pattern.find? i j).isSome := by
      rw [Bool.eq_iff_iff, ← SparsityPattern.stored_iff_isSome, ← SparsityPattern.stored_iff_isSome]
      exact h.mass.stored_iff (Ne.symm hji)
    rw [hstored]

theorem rowTimeStepAt_eq (i : Nat) : g.rowTimeStepAt i = g'.rowTimeStepAt i := by
  rw [rowTimeStepAt, rowTimeStepAt, viscositySumAt, viscositySumAt, h.edgeList_eq, h.lumpedAt_eq]

theorem timeStepLimit_eq : g.timeStepLimit = g'.timeStepLimit := by
  rw [timeStepLimit, timeStepLimit, h.numNodes_eq, funext h.rowTimeStepAt_eq]

variable [OrderedExtremes α] (u z : Nat → α) (i : Nat)

theorem boundsAt_eq : g.boundsAt u i = g'.boundsAt u i := by
  -- The fold starts from the value at `i`, so it has taken in the diagonal already.
  let widen (bounds : Bounds α) (j : Nat) := bounds.widened (u j)
  have hcomm (bounds : Bounds α) (j k : Nat) :
      widen (widen bounds j) k = widen (widen bounds k) j := bounds.widened_comm (u j) (u k)
  have hself : widen ⟨u i, u i⟩ i = ⟨u i, u i⟩ := Bounds.widened_self (u i)
  calc g.boundsAt u i = (g.neighbors i).foldl widen ⟨u i, u i⟩ := rfl
    _ = ((g.neighbors i).filter (· ≠ i)).foldl widen ⟨u i, u i⟩ :=
      (foldl_filter_ne hcomm hself _).symm
    _ = ((g'.neighbors i).filter (· ≠ i)).foldl widen ⟨u i, u i⟩ := by rw [h.filter_neighbors_eq]
    _ = g'.boundsAt u i := foldl_filter_ne hcomm hself _

theorem endAt_eq : g.endAt u z i = g'.endAt u z i := by
  rw [endAt, endAt, h.boundsAt_eq]

theorem rateAt_eq (scheme : Scheme) : scheme.rateAt g u z i = scheme.rateAt g' u z i := by
  cases scheme with
  | lowOrder => simp only [Scheme.rateAt, lowOrderAt, h.edgeList_eq, h.lumpedAt_eq]
  | highOrder => simp only [Scheme.rateAt, highOrderAt, h.edgeList_eq, h.lumpedAt_eq]
  | mcl => simp only [Scheme.rateAt, mclAt, h.edgeList_eq, h.lumpedAt_eq, h.endAt_eq]

theorem rate_eq (scheme : Scheme) : scheme.rate g u i = scheme.rate g' u i := by
  have hlowOrder : g.lowOrderAt u = g'.lowOrderAt u :=
    funext fun j ↦ h.rateAt_eq u u j .lowOrder
  rw [Scheme.rate, Scheme.rate, hlowOrder, h.rateAt_eq]

theorem fluxAt_eq (j : Nat) : g.fluxAt u z i j = g'.fluxAt u z i j := by
  rw [fluxAt, fluxAt, h.edge?_eq, h.endAt_eq, h.endAt_eq]

theorem exists_limitedFluxes {x z : Array α} (hx : x.size = g.numNodes)
    (hz : z.size = g.numNodes) : ∃ fluxes fluxes', g.limitedFluxes x z = .ok fluxes ∧
      g'.limitedFluxes x z = .ok fluxes' ∧ ∀ i j p, i ≠ j → g.pattern.Stores i j p →
        ∃ p' flux, g'.pattern.Stores i j p' ∧ fluxes[p]? = some flux ∧
          fluxes'[p']? = some flux := by
  obtain ⟨fluxes, hfluxes, -, hflux⟩ := h.accepted.exists_limitedFluxes hx hz
  obtain ⟨fluxes', hfluxes', -, hflux'⟩ := h.accepted'.exists_limitedFluxes
    (hx.trans h.numNodes_eq) (hz.trans h.numNodes_eq)
  refine ⟨fluxes, fluxes', hfluxes, hfluxes', fun i j p hij hp ↦ ?_⟩
  obtain ⟨p', hp'⟩ := (h.mass.stored_iff hij).1 ⟨p, hp⟩
  refine ⟨p', _, hp', hflux i j p (SparsityPattern.stores_iff_find?.1 hp), ?_⟩
  rw [hflux' i j p' (SparsityPattern.stores_iff_find?.1 hp'), h.fluxAt_eq]

theorem sameAnswers : g.SameAnswers g' where
  localBounds x hx i hi := by
    refine ⟨_, h.accepted.localBounds_eq hi hx.ge, ?_⟩
    rw [h.accepted'.localBounds_eq (hi.trans_eq h.numNodes_eq) (hx.trans h.numNodes_eq).ge,
      h.boundsAt_eq]
  rowRate scheme x z hx hz i hi := by
    refine ⟨_, h.accepted.rowRate_eq scheme hi hx.ge fun _ ↦ hz.ge, ?_⟩
    rw [h.accepted'.rowRate_eq scheme (hi.trans_eq h.numNodes_eq) (hx.trans h.numNodes_eq).ge
      fun _ ↦ (hz.trans h.numNodes_eq).ge, h.rateAt_eq]
  evaluate scheme sizes numVars hvars hsize x hx := by
    refine ⟨_, h.accepted.evaluate_eq scheme hvars hsize hx, ?_⟩
    have hrates : scheme.componentRate g x = scheme.componentRate g' x := by
      funext p
      rw [Scheme.componentRate, Scheme.componentRate, h.numNodes_eq, h.rate_eq]
    rw [h.numNodes_eq] at hsize hx
    rw [h.accepted'.evaluate_eq scheme hvars hsize hx, hrates]
  limitedFluxes x z := h.exists_limitedFluxes
  stableTimeStep :=
    ⟨_, h.accepted.stableTimeStep?_eq, h.timeStepLimit_eq ▸ h.accepted'.stableTimeStep?_eq⟩

end SameEdges

/-- Two graphs whose matrices differ on the diagonal at most, in what is stored there and in the
values, give the same answers about every state. -/
theorem sameAnswers_of_sameOffDiagonal [OrderedExtremes α]
    {mass mass' advection advection' : CsrMatrix α} {lumped : Array α}
    (hmass : mass.SameOffDiagonal mass') (hadvection : advection.SameOffDiagonal advection')
    {g g' : GraphOperator α} (hg : withLumpedMass mass advection lumped = .ok g)
    (hg' : withLumpedMass mass' advection' lumped = .ok g') : g.SameAnswers g' := by
  obtain ⟨rfl, rfl, rfl, haccepted⟩ := withLumpedMass_eq_ok_iff.1 hg
  obtain ⟨rfl, rfl, hlumped, haccepted'⟩ := withLumpedMass_eq_ok_iff.1 hg'
  have h : g.SameEdges g' := ⟨haccepted, haccepted', hmass, hadvection, hlumped.symm⟩
  exact h.sameAnswers

def loopedPattern : SparsityPattern :=
  .ofLanes 3 [[0, 1, 2], [0, 2], [0, 1, 2]] (by decide) (by decide)

def loopedMass : CsrMatrix ℚ := ⟨loopedPattern, #[7, 1, -2, 1, 3, -2, 3, 5], rfl⟩

def loopedAdvection : CsrMatrix ℚ := ⟨loopedPattern, #[9, 2, 0, -1, -3, 0, 1, 4], rfl⟩

def loopedTriangle : GraphOperator ℚ :=
  ⟨loopedMass, loopedAdvection, #[1, 2, 3], #[0, 3, 5, 1, 6, 2, 4, 7]⟩

theorem withLumpedMass_loopedTriangle :
    withLumpedMass loopedMass loopedAdvection #[1, 2, 3] = .ok loopedTriangle :=
  withLumpedMass_eq_ok_iff.2 ⟨rfl, rfl, rfl, by decide, by decide, rfl, by decide +kernel,
    by decide +kernel, rfl, by decide +kernel⟩

theorem sameOffDiagonal_loopedMass : triangleMass.SameOffDiagonal loopedMass :=
  CsrMatrix.sameOffDiagonal_of_value?_eq rfl rfl (by decide +kernel)

theorem sameOffDiagonal_loopedAdvection : triangleAdvection.SameOffDiagonal loopedAdvection :=
  CsrMatrix.sameOffDiagonal_of_value?_eq rfl rfl (by decide +kernel)

theorem sameAnswers_loopedTriangle : triangle.SameAnswers loopedTriangle :=
  sameAnswers_of_sameOffDiagonal sameOffDiagonal_loopedMass sameOffDiagonal_loopedAdvection
    withLumpedMass_triangle withLumpedMass_loopedTriangle

end GraphOperator

end GraphTransport
