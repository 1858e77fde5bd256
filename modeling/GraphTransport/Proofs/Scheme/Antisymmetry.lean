import GraphTransport.Proofs.Scalar.NearestEven
import GraphTransport.Proofs.Scheme.LimitedFluxes
import GraphTransport.Scheme.Rate

namespace GraphTransport

variable {F : Type} [Field F] [LinearOrder F] [IsStrictOrderedRing F] {ρ : Rounding F}

theorem Rounded.clip_neg_eq_neg_iff {f lo hi : Rounded ρ} :
    clip (-f) (-hi) (-lo) = -clip f lo hi ↔ (f = 0 → lo ≤ 0 ∧ 0 ≤ hi) := by
  have hval : clip (-f) (-hi) (-lo) = -clip f lo hi ↔
      clip (-f.val) (-hi.val) (-lo.val) = -clip f.val lo.val hi.val := by
    rw [← val_clip, ← val_neg, ← val_neg, ← val_neg, ← val_neg, ← val_clip]
    exact Subtype.ext_iff
  have hzero : f = 0 ↔ f.val = 0 := Subtype.ext_iff
  rw [hval, GraphTransport.clip_neg_eq_neg_iff, hzero]
  exact Iff.rfl

namespace GraphOperator

def KeepsZeroFlux {α : Type} [Scalar α] (g : GraphOperator α) (u z : Nat → α) (i j : Nat) : Prop :=
  ∀ e, g.edge? i j = some e → e.targetFlux (g.endAt u z i) (g.endAt u z j) = 0 →
    e.lowerClip (g.endAt u z i) (g.endAt u z j) ≤ 0 ∧
      0 ≤ e.upperClip (g.endAt u z i) (g.endAt u z j)

variable {g : GraphOperator (Rounded ρ)}

theorem Accepted.fluxAt_comm_iff (hg : g.Accepted) (u z : Nat → Rounded ρ) (i j : Nat) :
    g.fluxAt u z j i = -g.fluxAt u z i j ↔ g.KeepsZeroFlux u z i j := by
  rw [fluxAt, fluxAt, hg.edge?_comm i j, KeepsZeroFlux]
  cases h : g.edge? i j with
  | none =>
    have hzero : (0 : Rounded ρ) = -0 := Subtype.ext neg_zero.symm
    simp [← hzero]
  | some e =>
    simp only [Option.map_some, Option.elim_some, Option.some.injEq, forall_eq']
    rw [Edge.limitedFlux_eq_clip, Edge.limitedFlux_eq_clip, e.targetFlux_mirror,
      e.lowerClip_mirror, e.upperClip_mirror]
    exact Rounded.clip_neg_eq_neg_iff

/-- At every storage offset the limited flux is the exact opposite of the one at the transposed
offset just if a target flux of zero is left in by both clipping bounds. -/
theorem limitedFluxes_transpose_iff {mass advection : CsrMatrix (Rounded ρ)}
    {lumped : Array (Rounded ρ)} (hg : withLumpedMass mass advection lumped = .ok g)
    {x z : Array (Rounded ρ)} (hx : x.size = g.numNodes) (hz : z.size = g.numNodes) :
    ∃ fluxes, g.limitedFluxes x z = .ok fluxes ∧
      (∀ p < g.nnz, ∃ i j, g.pattern.find? i j = some p) ∧
      ∀ i j p, g.pattern.find? i j = some p → ∃ q f f', g.transposeOffsets[p]? = some q ∧
        fluxes[p]? = some f ∧ fluxes[q]? = some f' ∧
        (f' = -f ↔ g.KeepsZeroFlux (valueAt x) (valueAt z) i j) := by
  have hg := accepted_of_withLumpedMass hg
  obtain ⟨fluxes, hfluxes, -, hflux⟩ := hg.exists_limitedFluxes hx hz
  refine ⟨fluxes, hfluxes, fun p hp ↦ SparsityPattern.exists_find?_of_lt hp, fun i j p hp ↦ ?_⟩
  obtain ⟨q, hq, hqp⟩ := hg.transpose hp
  exact ⟨q, _, _, hq, hflux i j p hp, hflux j i q hqp, hg.fluxAt_comm_iff _ _ i j⟩

def pairPattern : SparsityPattern := .ofLanes 2 [[1], [0]] (by decide) (by decide)

def pairMass : CsrMatrix (Rounded .binary64) := ⟨pairPattern, #[1, 1], rfl⟩

def pairAdvection : CsrMatrix (Rounded .binary64) := ⟨pairPattern, #[1, 0], rfl⟩

def pair : GraphOperator (Rounded .binary64) := ⟨pairMass, pairAdvection, #[1, 1], #[1, 0]⟩

theorem withLumpedMass_pair : withLumpedMass pairMass pairAdvection #[1, 1] = .ok pair :=
  withLumpedMass_eq_ok_iff.2 ⟨rfl, rfl, rfl, by decide, by decide, rfl, by decide +kernel,
    by decide +kernel, rfl, by decide +kernel⟩

theorem limitedFluxes_transpose_iff_pair :
    ∃ (fluxes : Array (Rounded .binary64)) (q : Nat) (f f' : Rounded .binary64),
      pair.limitedFluxes #[1, 2] #[0, -1] = .ok fluxes ∧ pair.transposeOffsets[0]? = some q ∧
      fluxes[0]? = some f ∧ fluxes[q]? = some f' ∧
      (f' = -f ↔ pair.KeepsZeroFlux (valueAt #[1, 2]) (valueAt #[0, -1]) 0 1) := by
  obtain ⟨fluxes, hfluxes, -, h⟩ := limitedFluxes_transpose_iff withLumpedMass_pair
    (x := #[1, 2]) (z := #[0, -1]) rfl rfl
  obtain ⟨q, f, f', hq, hf, hf', hiff⟩ := h 0 1 0 rfl
  exact ⟨fluxes, q, f, f', hfluxes, hq, hf, hf', hiff⟩

def spread : Array (Rounded .binary64) := #[.of _ (2 ^ (-70 : ℤ)), 1]

/-- Limited fluxes are not always exactly opposite: in the state `spread` the low-order rates make
the target flux zero, and the lower bound at the first node is rounded to a positive number. -/
theorem limitedFluxes_not_antisymmetric : ¬ ∀ (ρ : Rounding ℚ)
    (mass advection : CsrMatrix (Rounded ρ)) (lumped : Array (Rounded ρ))
    (g : GraphOperator (Rounded ρ)), withLumpedMass mass advection lumped = .ok g →
    ∀ x out z fluxes : Array (Rounded ρ), Scheme.lowOrder.rates g x #[] out = .ok z →
      g.limitedFluxes x z = .ok fluxes → ∀ (p q : Nat) (f f' : Rounded ρ),
        g.transposeOffsets[p]? = some q → fluxes[p]? = some f → fluxes[q]? = some f' → f' = -f := by
  intro h
  have hrates : Scheme.lowOrder.rates pair spread #[] #[0, 0] = .ok #[0, -1] := by
    decide +kernel
  have hfluxes : pair.limitedFluxes spread #[0, -1] = .ok #[.of _ (2 ^ (-69 : ℤ)), 0] := by
    decide +kernel
  have hopposite := h .binary64 pairMass pairAdvection #[1, 1] pair withLumpedMass_pair spread
    #[0, 0] _ _ hrates hfluxes 0 1 _ _ rfl rfl rfl
  exact absurd hopposite (by decide +kernel)

end GraphOperator

end GraphTransport
