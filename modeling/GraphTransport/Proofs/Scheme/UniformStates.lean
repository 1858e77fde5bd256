import GraphTransport.Proofs.Evolution.Agreement
import GraphTransport.Proofs.Scheme.Antisymmetry

namespace GraphTransport

variable {F : Type} [Field F] [LinearOrder F] [IsStrictOrderedRing F] {ρ : Rounding F}

def Endpoint.uniform (c : Rounded ρ) : Endpoint (Rounded ρ) := ⟨c, 0, ⟨c, c⟩⟩

namespace Edge

variable (e : Edge (Rounded ρ)) (c : Rounded ρ)

theorem lowOrderFlux_uniform : e.lowOrderFlux c c = 0 := by
  rw [lowOrderFlux, Rounded.sub_self, Rounded.mul_zero]

theorem targetFlux_uniform : e.targetFlux (.uniform c) (.uniform c) = 0 := by
  simp only [targetFlux, Endpoint.uniform, Rounded.sub_self, Rounded.mul_zero, Rounded.add_zero]

theorem barHere_uniform : e.barHere (.uniform c) (.uniform c) = e.viscosity * (c + c) := by
  simp only [barHere, Endpoint.uniform, Rounded.sub_self, Rounded.mul_zero, Rounded.sub_zero]

theorem barThere_uniform : e.barThere (.uniform c) (.uniform c) = e.viscosity * (c + c) := by
  simp only [barThere, Endpoint.uniform, Rounded.sub_self, Rounded.mul_zero, Rounded.sub_zero]

theorem limitedFlux_uniform (hρ : ρ.Doubles) :
    e.limitedFlux (.uniform c) (.uniform c) = 0 := by
  -- Bound and bar state are the same product, with the factor two in different places.
  have hbound : 2 * e.viscosity * c - e.viscosity * (c + c) = 0 := by
    rw [Rounded.two_mul_mul hρ, Rounded.sub_self]
  have hbound' : e.viscosity * (c + c) - 2 * e.viscosity * c = 0 := by
    rw [Rounded.two_mul_mul hρ, Rounded.sub_self]
  rw [limitedFlux_eq_clip, targetFlux_uniform, lowerClip, barHere_uniform, barThere_uniform]
  simp only [Endpoint.uniform, hbound, hbound', clip, lt_irrefl, if_false, max_self]

end Edge

namespace GraphOperator

variable (g : GraphOperator (Rounded ρ)) (c : Rounded ρ) (i : Nat)

theorem boundsAt_uniform : g.boundsAt (fun _ ↦ c) i = ⟨c, c⟩ := by
  refine List.foldl_fixed' (fun _ ↦ ?_) _
  simp only [min_self, max_self]

theorem endAt_uniform : g.endAt (fun _ ↦ c) (fun _ ↦ 0) i = .uniform c := by
  rw [endAt, boundsAt_uniform]
  rfl

theorem lowOrderAt_uniform : g.lowOrderAt (fun _ ↦ c) i = 0 := by
  have hsum : (g.edgeList i).foldl (fun sum e ↦ sum + e.lowOrderFlux c c) 0 = 0 := by
    refine List.foldl_fixed' (fun e ↦ ?_) _
    rw [e.lowOrderFlux_uniform, Rounded.add_zero]
  rw [lowOrderAt, hsum, Rounded.zero_div]

theorem highOrderAt_uniform : g.highOrderAt (fun _ ↦ c) (fun _ ↦ 0) i = 0 := by
  have hsum : (g.edgeList i).foldl (fun sum e ↦ sum - e.forward * (c - c) +
      e.mass * (0 - 0)) 0 = 0 := by
    refine List.foldl_fixed' (fun e ↦ ?_) _
    simp only [Rounded.sub_self, Rounded.mul_zero, Rounded.add_zero]
  rw [highOrderAt, hsum, Rounded.zero_div]

theorem mclAt_uniform (hρ : ρ.Doubles) : g.mclAt (fun _ ↦ c) (fun _ ↦ 0) i = 0 := by
  have hsum : (g.edgeList i).foldl (fun sum e ↦ sum + e.lowOrderFlux c c +
      e.limitedFlux (.uniform c) (.uniform c)) 0 = 0 := by
    refine List.foldl_fixed' (fun e ↦ ?_) _
    rw [e.lowOrderFlux_uniform, e.limitedFlux_uniform c hρ, Rounded.add_zero, Rounded.add_zero]
  simp only [mclAt, endAt_uniform]
  rw [hsum, Rounded.zero_div]

theorem fluxAt_uniform (hρ : ρ.Doubles) (j : Nat) :
    g.fluxAt (fun _ ↦ c) (fun _ ↦ 0) i j = 0 := by
  rw [fluxAt, endAt_uniform, endAt_uniform]
  cases g.edge? i j with
  | none => rfl
  | some e => exact e.limitedFlux_uniform c hρ

end GraphOperator

namespace Scheme

variable (scheme : Scheme) (g : GraphOperator (Rounded ρ)) (c : Rounded ρ)

theorem rateAt_uniform (hρ : ρ.Doubles) (i : Nat) :
    scheme.rateAt g (fun _ ↦ c) (fun _ ↦ 0) i = 0 := by
  cases scheme with
  | lowOrder => exact g.lowOrderAt_uniform c i
  | highOrder => exact g.highOrderAt_uniform c i
  | mcl => exact g.mclAt_uniform c i hρ

theorem rate_uniform (hρ : ρ.Doubles) (i : Nat) : scheme.rate g (fun _ ↦ c) i = 0 := by
  have hlowOrder : g.lowOrderAt (fun _ ↦ c) = fun _ ↦ 0 := funext (g.lowOrderAt_uniform c)
  rw [rate, hlowOrder, scheme.rateAt_uniform g c hρ]

theorem componentRate_uniform (hρ : ρ.Doubles) {numVars p : Nat} (hp : p < numVars * g.numNodes) :
    scheme.componentRate g (Array.replicate (numVars * g.numNodes) c) p = 0 := by
  have hn : 0 < g.numNodes := Nat.pos_of_ne_zero fun hn ↦ by simp [hn] at hp
  have hvar : p / g.numNodes < numVars := (Nat.div_lt_iff_lt_mul hn).2 hp
  rw [componentRate, ← scheme.rate_uniform g c hρ (p % g.numNodes)]
  refine scheme.rate_congr (fun j hj ↦ ?_) (Nat.mod_lt p hn)
  rw [variableAt, getD_of_lt (by simpa using block_lt hvar hj), Array.getElem_replicate]

end Scheme

namespace GraphOperator

variable {g : GraphOperator (Rounded ρ)}

theorem valueAt_replicate {n j : Nat} (c : Rounded ρ) (hj : j < n) :
    valueAt (Array.replicate n c) j = c := by
  rw [valueAt, getD_of_lt (by simpa using hj), Array.getElem_replicate]

namespace Accepted

theorem rates_uniform (hρ : ρ.Doubles) (hg : g.Accepted) (scheme : Scheme) (c : Rounded ρ)
    {z out : Array (Rounded ρ)} (hz : scheme.needsLowOrderRates → z = Array.replicate g.numNodes 0)
    (hout : out.size = g.numNodes) :
    scheme.rates g (Array.replicate g.numNodes c) z out = .ok (Array.replicate g.numNodes 0) := by
  have hsize (h : scheme.needsLowOrderRates) : z.size = g.numNodes := by
    rw [hz h, Array.size_replicate]
  have hrate : ∀ i ∈ List.range g.numNodes,
      scheme.rateAt g (valueAt (Array.replicate g.numNodes c)) (valueAt z) i = 0 := by
    intro i hi
    have hi := List.mem_range.1 hi
    cases scheme with
    | lowOrder =>
      exact (lowOrderAt_congr (fun j hj ↦ valueAt_replicate c hj) hi).trans
        (g.lowOrderAt_uniform c i)
    | highOrder | mcl =>
      rw [hz rfl]
      exact (Scheme.rateAt_congr _ (fun j hj ↦ valueAt_replicate c hj)
        (fun j hj ↦ valueAt_replicate 0 hj) hi).trans (Scheme.rateAt_uniform _ g c hρ i)
  rw [hg.rates_eq scheme Array.size_replicate hsize hout, List.map_congr_left hrate,
    List.map_const', List.length_range, List.toArray_replicate]

theorem limitedFluxes_uniform (hρ : ρ.Doubles) (hg : g.Accepted) (c : Rounded ρ) :
    g.limitedFluxes (Array.replicate g.numNodes c) (Array.replicate g.numNodes 0) =
      .ok (Array.replicate g.nnz 0) := by
  obtain ⟨fluxes, hfluxes, hsize, hflux⟩ :=
    hg.exists_limitedFluxes (Array.size_replicate (v := c)) (Array.size_replicate (v := 0))
  rw [hfluxes]
  congr 1
  refine Array.ext (by simpa using hsize) fun p hp hp' ↦ ?_
  obtain ⟨i, j, hfind⟩ := SparsityPattern.exists_find?_of_lt (hp.trans_eq hsize)
  obtain ⟨hi, hj, -⟩ := hg.lt_numNodes_of_find? hfind
  have hzero : g.fluxAt (valueAt (Array.replicate g.numNodes c))
      (valueAt (Array.replicate g.numNodes 0)) i j = 0 :=
    (fluxAt_congr (fun k hk ↦ valueAt_replicate c hk) (fun k hk ↦ valueAt_replicate 0 hk) hi
      hj).trans (g.fluxAt_uniform c i hρ j)
  have hflux := hflux i j p hfind
  rw [hzero, Array.getElem?_eq_getElem hp] at hflux
  rw [Array.getElem_replicate]
  exact Option.some.inj hflux

end Accepted

/-- Uniform states do not change, whatever the operators and although every operation is rounded:
all rates of all schemes are zero, and so is every limited flux. -/
theorem uniform_of_withLumpedMass (hρ : ρ.Doubles) {mass advection : CsrMatrix (Rounded ρ)}
    {lumped : Array (Rounded ρ)} (hg : withLumpedMass mass advection lumped = .ok g)
    (c : Rounded ρ) :
    (∀ (scheme : Scheme) (sizes : SizeArithmetic) (numVars : Nat), numVars ≠ 0 →
      sizes.mul numVars g.numNodes = .ok (numVars * g.numNodes) →
      evaluate sizes scheme g numVars (Array.replicate (numVars * g.numNodes) c) =
        .ok (Array.replicate (numVars * g.numNodes) 0)) ∧
    ∀ ignored out : Array (Rounded ρ), out.size = g.numNodes → ∃ z,
      Scheme.lowOrder.rates g (Array.replicate g.numNodes c) ignored out = .ok z ∧
      (∀ scheme : Scheme, scheme.rates g (Array.replicate g.numNodes c) z out =
        .ok (Array.replicate g.numNodes 0)) ∧
      g.limitedFluxes (Array.replicate g.numNodes c) z = .ok (Array.replicate g.nnz 0) := by
  have hg := accepted_of_withLumpedMass hg
  constructor
  · intro scheme sizes numVars hvars hsize
    rw [hg.evaluate_eq scheme hvars hsize Array.size_replicate]
    congr 1
    refine Array.ext (by simp) fun p hp hp' ↦ ?_
    have hp : p < numVars * g.numNodes := by simpa using hp'
    rw [Array.getElem_ofFn, Array.getElem_replicate, scheme.componentRate_uniform g c hρ hp]
  · intro ignored out hout
    have hlowOrder : Scheme.lowOrder.rates g (Array.replicate g.numNodes c) ignored out =
        .ok (Array.replicate g.numNodes 0) :=
      hg.rates_uniform hρ .lowOrder c (fun h ↦ absurd h (by decide)) hout
    exact ⟨_, hlowOrder, fun scheme ↦ hg.rates_uniform hρ scheme c (fun _ ↦ rfl) hout,
      hg.limitedFluxes_uniform hρ c⟩

theorem uniform_of_withLumpedMass_pair :
    evaluate .word64 .mcl pair 2 #[0.1, 0.1, 0.1, 0.1] = .ok #[0, 0, 0, 0] ∧
    ∃ z, Scheme.lowOrder.rates pair #[0.1, 0.1] #[] #[0, 0] = .ok z ∧
      (∀ scheme : Scheme, scheme.rates pair #[0.1, 0.1] z #[0, 0] = .ok #[0, 0]) ∧
      pair.limitedFluxes #[0.1, 0.1] z = .ok #[0, 0] := by
  obtain ⟨hevaluate, hfluxes⟩ :=
    uniform_of_withLumpedMass Rounding.doubles_binary64 withLumpedMass_pair 0.1
  exact ⟨hevaluate .mcl .word64 2 two_ne_zero rfl, hfluxes #[] #[0, 0] rfl⟩

end GraphOperator

end GraphTransport
