import GraphTransport.Proofs.Graph.Reach
import GraphTransport.Scheme.Rate

namespace GraphTransport

variable {α : Type} [Scalar α]

def valueAt (x : Array α) (i : Nat) : α := x.getD i 0

theorem fetch_valueAt {x : Array α} {i n : Nat} (hi : i < n) (hx : n ≤ x.size) :
    fetch x i = .ok (valueAt x i) := fetch_eq_ok_getD (hi.trans_le hx)

namespace GraphOperator

variable (g : GraphOperator α) (u z : Nat → α) (i : Nat)

def endAt : Endpoint α := ⟨u i, z i, g.boundsAt u i⟩

def lowOrderAt : α :=
  (g.edgeList i).foldl (fun sum e ↦ sum + e.lowOrderFlux (u i) (u e.neighbor)) 0 / g.lumpedAt i

def highOrderAt : α :=
  (g.edgeList i).foldl (fun sum e ↦ sum - e.forward * (u e.neighbor - u i) +
    e.mass * (z i - z e.neighbor)) 0 / g.lumpedAt i

def mclAt : α :=
  (g.edgeList i).foldl (fun sum e ↦ sum + e.lowOrderFlux (u i) (u e.neighbor) +
    e.limitedFlux (g.endAt u z i) (g.endAt u z e.neighbor)) 0 / g.lumpedAt i

end GraphOperator

def Scheme.rateAt (scheme : Scheme) (g : GraphOperator α) (u z : Nat → α) (i : Nat) : α :=
  match scheme with
  | lowOrder => g.lowOrderAt u i
  | highOrder => g.highOrderAt u z i
  | mcl => g.mclAt u z i

def Scheme.rate (scheme : Scheme) (g : GraphOperator α) (u : Nat → α) (i : Nat) : α :=
  scheme.rateAt g u (g.lowOrderAt u) i

section Congruence

/-- The number of edges across which a rate depends on the state. -/
def Scheme.reach : Scheme → Nat
  | lowOrder => 1
  | highOrder | mcl => 2

variable {g : GraphOperator α} {u u' z z' : Nat → α} {i : Nat}

namespace GraphOperator.AgreeWithin

theorem boundsAt_eq (hu : g.AgreeWithin 1 i u u') : g.boundsAt u i = g.boundsAt u' i := by
  rw [boundsAt, boundsAt, hu.self]
  refine List.foldl_ext _ _ _ fun bounds j hj ↦ ?_
  rw [hu j (within_one_of_mem hj)]

theorem endAt_eq (hu : g.AgreeWithin 1 i u u') (hz : z i = z' i) :
    g.endAt u z i = g.endAt u' z' i := by
  rw [endAt, endAt, hu.boundsAt_eq, hu.self, hz]

theorem lowOrderAt_eq (hu : g.AgreeWithin 1 i u u') : g.lowOrderAt u i = g.lowOrderAt u' i := by
  rw [lowOrderAt, lowOrderAt, hu.self]
  refine congrArg (· / _) (List.foldl_ext _ _ _ fun sum e he ↦ ?_)
  rw [hu _ (within_one_of_edge he)]

theorem rateAt_eq {scheme : Scheme} (hu : g.AgreeWithin scheme.reach i u u')
    (hz : g.AgreeWithin 1 i z z') : scheme.rateAt g u z i = scheme.rateAt g u' z' i := by
  cases scheme with
  | lowOrder => exact hu.lowOrderAt_eq
  | highOrder =>
    have hu₁ : g.AgreeWithin 1 i u u' := hu.mono (Nat.le_succ 1)
    rw [Scheme.rateAt, Scheme.rateAt, highOrderAt, highOrderAt, hu.self, hz.self]
    refine congrArg (· / _) (List.foldl_ext _ _ _ fun sum e he ↦ ?_)
    rw [hu₁ _ (within_one_of_edge he), hz _ (within_one_of_edge he)]
  | mcl =>
    have hu₁ : g.AgreeWithin 1 i u u' := hu.mono (Nat.le_succ 1)
    rw [Scheme.rateAt, Scheme.rateAt, mclAt, mclAt, hu.self, hu₁.endAt_eq hz.self]
    refine congrArg (· / _) (List.foldl_ext _ _ _ fun sum e he ↦ ?_)
    have hj : g.AgreeWithin 1 e.neighbor u u' := AgreeWithin.around hu (within_one_of_edge he)
    rw [hj.self, hj.endAt_eq (hz _ (within_one_of_edge he))]

theorem rate_eq {scheme : Scheme} (hu : g.AgreeWithin scheme.reach i u u') :
    scheme.rate g u i = scheme.rate g u' i := by
  cases scheme with
  | lowOrder => exact hu.lowOrderAt_eq
  | highOrder | mcl => exact rateAt_eq hu fun j hj ↦ (AgreeWithin.around hu hj).lowOrderAt_eq

end GraphOperator.AgreeWithin

open GraphOperator (AgreeWithin)

theorem GraphOperator.endAt_congr (hu : ∀ j < g.numNodes, u j = u' j)
    (hz : ∀ j < g.numNodes, z j = z' j) (hi : i < g.numNodes) :
    g.endAt u z i = g.endAt u' z' i :=
  (AgreeWithin.of_lt hu hi).endAt_eq (hz i hi)

theorem GraphOperator.lowOrderAt_congr (hu : ∀ j < g.numNodes, u j = u' j)
    (hi : i < g.numNodes) : g.lowOrderAt u i = g.lowOrderAt u' i :=
  (AgreeWithin.of_lt hu hi).lowOrderAt_eq

theorem Scheme.rateAt_congr (scheme : Scheme) (hu : ∀ j < g.numNodes, u j = u' j)
    (hz : ∀ j < g.numNodes, z j = z' j) (hi : i < g.numNodes) :
    scheme.rateAt g u z i = scheme.rateAt g u' z' i :=
  (AgreeWithin.of_lt hu hi).rateAt_eq (.of_lt hz hi)

theorem Scheme.rate_congr (scheme : Scheme) (hu : ∀ j < g.numNodes, u j = u' j)
    (hi : i < g.numNodes) : scheme.rate g u i = scheme.rate g u' i :=
  (AgreeWithin.of_lt hu hi).rate_eq

end Congruence

namespace GraphOperator.Accepted

variable {g : GraphOperator α} {i : Nat} {x z : Array α}

theorem lowOrderRate_eq (hg : g.Accepted) (hi : i < g.numNodes) (hx : g.numNodes ≤ x.size) :
    g.lowOrderRate x i = .ok (g.lowOrderAt (valueAt x) i) := by
  rw [lowOrderRate, fetch_valueAt hi hx, ok_bind, hg.edges_eq hi, ok_bind,
    foldlM_eq_ok_foldl (g := fun sum e ↦
      sum + e.lowOrderFlux (valueAt x i) (valueAt x e.neighbor)), ok_bind,
    g.fetch_lumpedMass hi, ok_bind]
  · rfl
  · intro sum e he
    rw [fetch_valueAt (neighbor_lt he) hx, ok_bind]
    rfl

theorem highOrderRate_eq (hg : g.Accepted) (hi : i < g.numNodes) (hx : g.numNodes ≤ x.size)
    (hz : g.numNodes ≤ z.size) :
    g.highOrderRate x z i = .ok (g.highOrderAt (valueAt x) (valueAt z) i) := by
  rw [highOrderRate, fetch_valueAt hi hx, ok_bind, fetch_valueAt hi hz, ok_bind, hg.edges_eq hi,
    ok_bind, foldlM_eq_ok_foldl (g := fun sum e ↦
      sum - e.forward * (valueAt x e.neighbor - valueAt x i) +
        e.mass * (valueAt z i - valueAt z e.neighbor)), ok_bind, g.fetch_lumpedMass hi, ok_bind]
  · rfl
  · intro sum e he
    rw [fetch_valueAt (neighbor_lt he) hx, ok_bind, fetch_valueAt (neighbor_lt he) hz, ok_bind]
    rfl

theorem endpoint_eq (hg : g.Accepted) (hi : i < g.numNodes) (hx : g.numNodes ≤ x.size)
    (hz : g.numNodes ≤ z.size) :
    g.endpoint x z i = .ok (g.endAt (valueAt x) (valueAt z) i) := by
  rw [endpoint, hg.localBounds_eq hi hx, ok_bind, fetch_valueAt hi hx, ok_bind,
    fetch_valueAt hi hz, ok_bind]
  rfl

theorem mclRate_eq (hg : g.Accepted) (hi : i < g.numNodes) (hx : g.numNodes ≤ x.size)
    (hz : g.numNodes ≤ z.size) :
    g.mclRate x z i = .ok (g.mclAt (valueAt x) (valueAt z) i) := by
  rw [mclRate, hg.endpoint_eq hi hx hz, ok_bind, hg.edges_eq hi, ok_bind,
    foldlM_eq_ok_foldl (g := fun sum e ↦
      sum + e.lowOrderFlux (valueAt x i) (valueAt x e.neighbor) +
        e.limitedFlux (g.endAt (valueAt x) (valueAt z) i)
          (g.endAt (valueAt x) (valueAt z) e.neighbor)), ok_bind, g.fetch_lumpedMass hi, ok_bind]
  · rfl
  · intro sum e he
    rw [hg.endpoint_eq (neighbor_lt he) hx hz, ok_bind]
    rfl

theorem rowRate_eq (hg : g.Accepted) (scheme : Scheme) (hi : i < g.numNodes)
    (hx : g.numNodes ≤ x.size) (hz : scheme.needsLowOrderRates → g.numNodes ≤ z.size) :
    scheme.rowRate g x z i = .ok (scheme.rateAt g (valueAt x) (valueAt z) i) := by
  cases scheme with
  | lowOrder => exact hg.lowOrderRate_eq hi hx
  | highOrder => exact hg.highOrderRate_eq hi hx (hz rfl)
  | mcl => exact hg.mclRate_eq hi hx (hz rfl)

end GraphOperator.Accepted

end GraphTransport
