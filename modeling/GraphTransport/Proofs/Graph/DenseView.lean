import GraphTransport.Proofs.Graph.TimeStep

namespace GraphTransport.GraphOperator

open SparsityPattern (stores_iff_find?)

variable {α : Type} [Scalar α] {mass advection : CsrMatrix α} {lumped : Array α}
  {g : GraphOperator α} {i j p q : Nat} {e : Edge α}

/-- The transpose offsets are an involution of the storage offsets, which takes the offset of
`(i, j)` to that of `(j, i)` and leaves those of the diagonal in place. -/
structure TransposesStorage (P : SparsityPattern) (offsets : Array Nat) : Prop where
  size_eq : offsets.size = P.nnz
  involutive : ∀ p q : Nat, offsets[p]? = some q → offsets[q]? = some p
  stores : ∀ p < P.nnz, ∃ i j q, P.Stores i j p ∧ offsets[p]? = some q ∧ P.Stores j i q
  fixed_iff : ∀ i j p, P.Stores i j p → (offsets[p]? = some p ↔ i = j)

/-- The edges are those of row `i`: they ascend, there is one for every entry off the diagonal, and
they carry the coefficients of both directions. -/
structure ShowsRow (mass advection : CsrMatrix α) (i : Nat) (es : List (Edge α)) : Prop where
  ascending : es.Pairwise fun e e' ↦ e.neighbor < e'.neighbor
  mem_iff : ∀ e, e ∈ es ↔ e.neighbor ≠ i ∧ mass.Holds i e.neighbor e.mass ∧
    advection.Holds i e.neighbor e.forward ∧ advection.Holds e.neighbor i e.backward
  existsUnique : ∀ j, j ≠ i → mass.pattern.Stored i j → ∃! e, e ∈ es ∧ e.neighbor = j

structure ShowsViscosity (advection : CsrMatrix α) (viscosity? : Nat → Nat → Option α) : Prop where
  eq_some : ∀ i j k k', advection.Holds i j k → advection.Holds j i k' →
    viscosity? i j = some (max (Scalar.abs k) (Scalar.abs k'))
  isSome_iff : ∀ i j, (viscosity? i j).isSome ↔ advection.pattern.Stored i j
  comm : ∀ i j, viscosity? i j = viscosity? j i

namespace Accepted

theorem advection_stores_iff (hg : g.Accepted) :
    g.advection.pattern.Stores i j p ↔ g.pattern.Stores i j p := by
  rw [← hg.pattern_eq]
  rfl

theorem transposesStorage (hg : g.Accepted) : TransposesStorage g.pattern g.transposeOffsets where
  size_eq := hg.size_transposeOffsets
  involutive p q hpq := by
    have hp : p < g.nnz := by
      rw [← hg.size_transposeOffsets]
      exact (Array.getElem?_eq_some_iff.1 hpq).1
    obtain ⟨i, j, hij⟩ := SparsityPattern.exists_stores_of_lt hp
    obtain ⟨q', hpq', hji⟩ := hg.transpose_stores hij
    obtain ⟨p', hqp', hij'⟩ := hg.transpose_stores hji
    obtain rfl : q' = q := Option.some.inj (hpq'.symm.trans hpq)
    rw [hqp', hij'.offset_unique hij]
  stores p hp := by
    obtain ⟨i, j, hij⟩ := SparsityPattern.exists_stores_of_lt hp
    obtain ⟨q, hpq, hji⟩ := hg.transpose_stores hij
    exact ⟨i, j, q, hij, hpq, hji⟩
  fixed_iff i j p hij := by
    obtain ⟨q, hpq, hji⟩ := hg.transpose_stores hij
    rw [hpq, Option.some.injEq]
    constructor
    · rintro rfl
      exact (hij.eq_of_offset_eq hji).1
    · rintro rfl
      exact hji.offset_unique hij

theorem holds_storedEdge (hg : g.Accepted) (h : g.pattern.Stores i j p) :
    g.mass.Holds i j (g.storedEdge j p).mass ∧ g.advection.Holds i j (g.storedEdge j p).forward ∧
      g.advection.Holds j i (g.storedEdge j p).backward := by
  obtain ⟨q, hpq, hji⟩ := hg.transpose_stores h
  have hq : g.transposeOffsets.getD p 0 = q := by
    rw [Array.getD_eq_getD_getElem?, hpq, Option.getD_some]
  refine ⟨CsrMatrix.holds_of_stores h, CsrMatrix.holds_of_stores (hg.advection_stores_iff.2 h), ?_⟩
  rw [storedEdge, hq]
  exact CsrMatrix.holds_of_stores (hg.advection_stores_iff.2 hji)

theorem mem_edgeList_iff (hg : g.Accepted) : e ∈ g.edgeList i ↔ e.neighbor ≠ i ∧
    g.mass.Holds i e.neighbor e.mass ∧ g.advection.Holds i e.neighbor e.forward ∧
      g.advection.Holds e.neighbor i e.backward := by
  rw [mem_edgeList, edge?_eq_some_iff]
  constructor
  · rintro ⟨-, hne, p, hp, he⟩
    have hholds := hg.holds_storedEdge (stores_iff_find?.2 hp)
    rw [he] at hholds
    exact ⟨hne.symm, hholds⟩
  · rintro ⟨hne, ⟨p, hp, hmass⟩, hforward, hbackward⟩
    obtain ⟨hmass', hforward', hbackward'⟩ := hg.holds_storedEdge hp
    have hfind := stores_iff_find?.1 hp
    refine ⟨(hg.lt_numNodes_of_find? hfind).2.1, hne.symm, p, hfind, ?_⟩
    have hm := hmass'.unique ⟨p, hp, hmass⟩
    have hk := hforward'.unique hforward
    have hk' := hbackward'.unique hbackward
    cases e
    exact Edge.mk.injEq .. ▸ ⟨rfl, hm, hk, hk'⟩

theorem edge?_eq_some_iff_holds (hg : g.Accepted) : g.edge? i j = some e ↔ e.neighbor = j ∧ j ≠ i ∧
    g.mass.Holds i j e.mass ∧ g.advection.Holds i j e.forward ∧
      g.advection.Holds j i e.backward := by
  constructor
  · intro h
    obtain rfl := neighbor_of_edge? h
    have hmem := mem_edgeList.2 ⟨(hg.lt_of_edge? h).2, h⟩
    exact ⟨rfl, hg.mem_edgeList_iff.1 hmem⟩
  · rintro ⟨rfl, h⟩
    exact (mem_edgeList.1 (hg.mem_edgeList_iff.2 h)).2

theorem pairwise_edgeList (g : GraphOperator α) (i : Nat) :
    (g.edgeList i).Pairwise fun e e' ↦ e.neighbor < e'.neighbor := by
  refine List.Pairwise.filterMap _ ?_ List.pairwise_lt_range
  intro j j' hlt e he e' he'
  rw [neighbor_of_edge? he, neighbor_of_edge? he']
  exact hlt

theorem showsRow (hg : g.Accepted) (i : Nat) :
    ShowsRow g.mass g.advection i (g.edgeList i) where
  ascending := pairwise_edgeList g i
  mem_iff _ := hg.mem_edgeList_iff
  existsUnique j hne hij := by
    obtain ⟨p, hp⟩ := hij
    refine ⟨g.storedEdge j p, ⟨hg.mem_edgeList_iff.2 ⟨hne, hg.holds_storedEdge hp⟩, rfl⟩, ?_⟩
    rintro e ⟨he, rfl⟩
    obtain ⟨-, -, q, hq, he⟩ := (mem_edgeList.1 he).imp_right edge?_eq_some_iff.1
    rw [hp.offset_unique (stores_iff_find?.2 hq), he]

theorem viscosity?_eq_some (hg : g.Accepted) {k k' : α} (h : g.advection.Holds i j k)
    (h' : g.advection.Holds j i k') : g.viscosity? i j = some (graphViscosity k k') := by
  obtain ⟨p, hp, hk⟩ := h
  obtain ⟨p', hp', hk'⟩ := h'
  have hp := hg.advection_stores_iff.1 hp
  obtain ⟨q, hpq, hq⟩ := hg.transpose_stores hp
  obtain rfl := hq.offset_unique (hg.advection_stores_iff.1 hp')
  have hfind := stores_iff_find?.1 hp
  simp [viscosity?, hfind, hk, hpq, hk', (hg.lt_numNodes_of_find? hfind).1, guard]

theorem viscosity?_eq_none {g : GraphOperator α} (h : ¬ g.pattern.Stored i j) :
    g.viscosity? i j = none := by
  unfold viscosity?
  rw [SparsityPattern.find?_eq_none_iff.2 h]
  by_cases hi : i < g.numNodes <;> simp [hi, guard]

theorem exists_holds (hg : g.Accepted) (h : g.pattern.Stored i j) :
    ∃ k k', g.advection.Holds i j k ∧ g.advection.Holds j i k' := by
  obtain ⟨p, hp⟩ := h
  exact ⟨_, _, (hg.holds_storedEdge hp).2⟩

theorem stored_comm (hg : g.Accepted) : g.pattern.Stored i j ↔ g.pattern.Stored j i := by
  have hswap {k l : Nat} (h : g.pattern.Stored k l) : g.pattern.Stored l k := by
    obtain ⟨p, hp⟩ := h
    obtain ⟨q, -, hq⟩ := hg.transpose_stores hp
    exact ⟨q, hq⟩
  exact ⟨hswap, hswap⟩

theorem showsViscosity [SymmetricViscosity α] (hg : g.Accepted) :
    ShowsViscosity g.advection g.viscosity? where
  eq_some _ _ _ _ := hg.viscosity?_eq_some
  isSome_iff i j := by
    rw [← hg.pattern_eq]
    constructor
    · intro h
      by_contra hij
      rw [viscosity?_eq_none hij] at h
      cases h
    · intro hij
      obtain ⟨k, k', hk, hk'⟩ := hg.exists_holds hij
      rw [hg.viscosity?_eq_some hk hk']
      rfl
  comm i j := by
    by_cases hij : g.pattern.Stored i j
    · obtain ⟨k, k', hk, hk'⟩ := hg.exists_holds hij
      rw [hg.viscosity?_eq_some hk hk', hg.viscosity?_eq_some hk' hk,
        SymmetricViscosity.graphViscosity_comm]
    · rw [viscosity?_eq_none hij, viscosity?_eq_none (mt hg.stored_comm.2 hij)]

theorem exists_mirror_mem (hg : g.Accepted) (he : e ∈ g.edgeList i) :
    ∃ e' ∈ g.edgeList e.neighbor, e'.neighbor = i ∧ (e.mass == e'.mass) = true ∧
      e'.forward = e.backward ∧ e'.backward = e.forward := by
  obtain ⟨hne, ⟨p, hp, hm⟩, hforward, hbackward⟩ := hg.mem_edgeList_iff.1 he
  obtain ⟨q, -, hq⟩ := hg.transpose_stores hp
  obtain ⟨hm', hforward', hbackward'⟩ := hg.holds_storedEdge hq
  have hmem : g.storedEdge i q ∈ g.edgeList e.neighbor :=
    hg.mem_edgeList_iff.2 ⟨hne.symm, hm', hforward', hbackward'⟩
  exact ⟨_, hmem, rfl, hg.mass_beq_of_holds ⟨p, hp, hm⟩ hm', hforward'.unique hbackward,
    hbackward'.unique hforward⟩

end Accepted

/-- A traversal of the graph shows the matrices as they are given. -/
structure ShowsMatrices (mass advection : CsrMatrix α) (g : GraphOperator α) : Prop where
  transposes : TransposesStorage mass.pattern g.transposeOffsets
  rows : ∀ i < g.numNodes, ∃ es, g.edges i = .ok es ∧ ShowsRow mass advection i es
  mirror : ∀ i < g.numNodes, ∀ es e, g.edges i = .ok es → e ∈ es →
    ∃ es' e', g.edges e.neighbor = .ok es' ∧ e' ∈ es' ∧ e'.neighbor = i ∧
      (e.mass == e'.mass) = true ∧ e'.forward = e.backward ∧ e'.backward = e.forward ∧
      e'.viscosity = e.viscosity
  viscosity : ShowsViscosity advection g.viscosity?
  edge_viscosity : ∀ i < g.numNodes, ∀ es e, g.edges i = .ok es → e ∈ es →
    g.viscosity? i e.neighbor = some e.viscosity

/-- Whatever the scalars, as long as the two ends of an edge see the same viscosity. They do in
exact arithmetic, in rounded arithmetic and in double precision. -/
theorem showsMatrices_of_withLumpedMass [SymmetricViscosity α]
    (hg : withLumpedMass mass advection lumped = .ok g) : ShowsMatrices mass advection g := by
  obtain ⟨rfl, rfl, -, hg⟩ := withLumpedMass_eq_ok_iff.1 hg
  have hedges {i : Nat} (hi : i < g.numNodes) {es : List (Edge α)} (h : g.edges i = .ok es) :
      g.edgeList i = es := Except.ok.inj ((hg.edges_eq hi).symm.trans h)
  refine ⟨hg.transposesStorage, ?_, ?_, hg.showsViscosity, ?_⟩
  · intro i hi
    exact ⟨g.edgeList i, hg.edges_eq hi, hg.showsRow i⟩
  · intro i hi es e hes he
    obtain rfl := hedges hi hes
    obtain ⟨e', he', hneighbor, hmass, hforward, hbackward⟩ := hg.exists_mirror_mem he
    refine ⟨_, e', hg.edges_eq (neighbor_lt he), he', hneighbor, hmass, hforward, hbackward, ?_⟩
    rw [Edge.viscosity, hforward, hbackward]
    exact SymmetricViscosity.graphViscosity_comm _ _
  · intro i hi es e hes he
    obtain rfl := hedges hi hes
    obtain ⟨-, -, hforward, hbackward⟩ := hg.mem_edgeList_iff.1 he
    exact hg.viscosity?_eq_some hforward hbackward

theorem showsMatrices_of_withLumpedMass_triangle :
    ShowsMatrices triangleMass triangleAdvection triangle :=
  showsMatrices_of_withLumpedMass withLumpedMass_triangle

end GraphTransport.GraphOperator
