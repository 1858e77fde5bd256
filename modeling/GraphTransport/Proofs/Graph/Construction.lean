import GraphTransport.Proofs.Graph.Accepted

namespace GraphTransport

section FirstBroken

variable {ε β γ : Type}

/-- The first requirement from number `k` on that is broken reports `e`. Here `R l e` says that
requirement `l` is broken and reports `e`. -/
def FirstBroken (R : Nat → ε → Prop) (k : Nat) (e : ε) : Prop :=
  ∃ l, k ≤ l ∧ R l e ∧ ∀ m, k ≤ m → m < l → ∀ e', ¬ R m e'

theorem firstBroken_iff {R : Nat → ε → Prop} {k : Nat} {e : ε} : FirstBroken R k e ↔
    R k e ∨ (∀ e', ¬ R k e') ∧ FirstBroken R (k + 1) e := by
  constructor
  · rintro ⟨l, hkl, hl, hbefore⟩
    rcases Nat.eq_or_lt_of_le hkl with rfl | hlt
    · exact .inl hl
    · refine .inr ⟨hbefore k le_rfl hlt, l, hlt, hl, ?_⟩
      intro m hm hml
      exact hbefore m (Nat.le_of_succ_le hm) hml
  · rintro (hk | ⟨hk, l, hkl, hl, hbefore⟩)
    · exact ⟨k, le_rfl, hk, fun m hm hmk ↦ by omega⟩
    · refine ⟨l, Nat.le_of_succ_le hkl, hl, ?_⟩
      intro m hm hml
      rcases Nat.eq_or_lt_of_le hm with rfl | hlt
      · exact hk
      · exact hbefore m hlt hml

theorem bind_eq_error_iff_firstBroken {R : Nat → ε → Prop} {k : Nat} {check : Except ε β}
    {next : β → Except ε γ} (hcheck : ∀ e, check = .error e ↔ R k e)
    (hnext : ∀ b, check = .ok b → ∀ e, next b = .error e ↔ FirstBroken R (k + 1) e) (e : ε) :
    (check >>= next) = .error e ↔ FirstBroken R k e := by
  rw [firstBroken_iff]
  cases check with
  | error e' =>
    have he' : R k e' := (hcheck e').1 rfl
    constructor
    · intro h
      obtain rfl : e' = e := Except.error.inj h
      exact .inl he'
    · rintro (h | ⟨h, -⟩)
      · rw [(hcheck e).2 h]
        rfl
      · exact absurd he' (h e')
  | ok b =>
    have hkept : ∀ e, ¬ R k e := fun e h ↦ by cases (hcheck e).2 h
    rw [ok_bind, hnext b rfl]
    exact ⟨fun h ↦ .inr ⟨hkept, h⟩, fun h ↦ (h.resolve_left (hkept e)).2⟩

theorem ite_eq_error_iff {p : Prop} [Decidable p] {e e' : ε} :
    (if p then .ok () else .error e' : Except ε Unit) = .error e ↔ ¬ p ∧ e' = e := by
  split <;> simp_all

end FirstBroken

variable {α : Type}

def SparsityPattern.FirstUnmatched (P : SparsityPattern) (i j : Nat) : Prop :=
  ∃ p, P.Stores i j p ∧ ¬ P.Stored j i ∧ ∀ q < p, ∀ k l, P.Stores k l q → P.Stored l k

def CsrMatrix.FirstAsymmetric [BEq α] (M : CsrMatrix α) (i j : Nat) : Prop :=
  ∃ p m m', M.pattern.Stores i j p ∧ M.values[p]? = some m ∧ M.Holds j i m' ∧
    (m == m') = false ∧ ∀ q < p, ∀ k l a a', M.pattern.Stores k l q → M.values[q]? = some a →
      M.Holds l k a' → (a == a') = true

def FirstNotPositive [Scalar α] (values : Array α) (i : Nat) : Prop :=
  ∃ v, values[i]? = some v ∧ ¬ 0 < v ∧ ∀ k < i, ∀ w, values[k]? = some w → 0 < w

theorem CsrMatrix.checkSquare_eq_error_iff {name : String} {A : CsrMatrix α} {e : GraphError} :
    A.checkSquare name = .error e ↔
      A.numRows ≠ A.numCols ∧ .notSquare name A.numRows A.numCols = e := ite_eq_error_iff

namespace SparsityPattern

variable {P : SparsityPattern}

def transposeOf (P : SparsityPattern) (e : Entry) : Except GraphError Nat :=
  match P.find? e.column e.row with
  | some q => .ok q
  | none => .error (.notStructurallySymmetric e.row e.column)

theorem transposeOffsets_eq_bind :
    P.transposeOffsets = P.entries.mapM P.transposeOf >>= fun offsets ↦ .ok offsets.toArray := rfl

theorem isOk_transposeOf {e : Entry} : (P.transposeOf e).isOk ↔ P.Stored e.column e.row := by
  rw [stored_iff_isSome, transposeOf]
  cases P.find? e.column e.row <;> simp [Except.isOk, Except.toBool]

theorem transposeOf_eq_error {i j p : Nat} (h : ¬ P.Stored j i) :
    P.transposeOf ⟨i, j, p⟩ = .error (.notStructurallySymmetric i j) := by
  rw [transposeOf, find?_eq_none_iff.2 h]

theorem transposeOffsets_eq_error_iff {e : GraphError} : P.transposeOffsets = .error e ↔
    ∃ i j, P.FirstUnmatched i j ∧ .notStructurallySymmetric i j = e := by
  have hsearch : P.transposeOffsets = .error e ↔ P.entries.mapM P.transposeOf = .error e := by
    rw [transposeOffsets_eq_bind]
    cases P.entries.mapM P.transposeOf <;> simp [bind, Except.bind]
  rw [hsearch, mapM_eq_error_iff]
  simp only [entries_find?_eq_some_iff, Bool.not_eq_true', isOk_transposeOf, ← Bool.not_eq_true]
  constructor
  · rintro ⟨⟨i, j, p⟩, ⟨hij, hji, hbefore⟩, herror⟩
    refine ⟨i, j, ⟨p, hij, hji, fun q hq k l hkl ↦ not_not.1 (hbefore q hq k l hkl)⟩, ?_⟩
    exact Except.error.inj ((transposeOf_eq_error hji).symm.trans herror)
  · rintro ⟨i, j, ⟨p, hij, hji, hbefore⟩, rfl⟩
    refine ⟨⟨i, j, p⟩, ⟨hij, hji, fun q hq k l hkl ↦ not_not.2 (hbefore q hq k l hkl)⟩, ?_⟩
    exact transposeOf_eq_error hji

end SparsityPattern

namespace CsrMatrix

variable {M : CsrMatrix α} {transposed : Array Nat} {i j p : Nat}

def agrees [BEq α] (M : CsrMatrix α) (transposed : Array Nat) (e : SparsityPattern.Entry) : Bool :=
  match M.values[e.offset]?, transposed[e.offset]?.bind (M.values[·]?) with
  | some m, some m' => m == m'
  | _, _ => false

theorem checkSymmetric_eq_find? [BEq α] (M : CsrMatrix α) (transposed : Array Nat) :
    M.checkSymmetric transposed =
      match M.pattern.entries.find? fun e ↦ !M.agrees transposed e with
      | some e => .error (.massNotSymmetric e.row e.column)
      | none => .ok () := rfl

theorem exists_values_of_stores (htransposed : M.pattern.transposeOffsets = .ok transposed)
    (h : M.pattern.Stores i j p) : ∃ q m m', transposed[p]? = some q ∧ M.values[p]? = some m ∧
      M.values[q]? = some m' ∧ M.Holds j i m' := by
  obtain ⟨q, hpq, hq⟩ :=
    SparsityPattern.exists_transpose htransposed (SparsityPattern.stores_iff_find?.1 h)
  have hq := SparsityPattern.stores_iff_find?.2 hq
  have hp' : p < M.values.size := h.lt_nnz.trans_eq M.size_values.symm
  have hq' : q < M.values.size := hq.lt_nnz.trans_eq M.size_values.symm
  exact ⟨q, M.values[p], M.values[q], hpq, Array.getElem?_eq_getElem hp',
    Array.getElem?_eq_getElem hq', q, hq, Array.getElem?_eq_getElem hq'⟩

theorem agrees_eq [BEq α] (htransposed : M.pattern.transposeOffsets = .ok transposed)
    {m m' : α} (h : M.pattern.Stores i j p) (hm : M.values[p]? = some m)
    (hm' : M.Holds j i m') : M.agrees transposed ⟨i, j, p⟩ = (m == m') := by
  obtain ⟨q, -, v, hpq, -, hv, hji⟩ := exists_values_of_stores htransposed h
  obtain rfl := hm'.unique hji
  simp [agrees, hm, hpq, hv]

theorem checkSymmetric_eq_error_iff [BEq α] {e : GraphError}
    (htransposed : M.pattern.transposeOffsets = .ok transposed) :
    M.checkSymmetric transposed = .error e ↔
      ∃ i j, M.FirstAsymmetric i j ∧ .massNotSymmetric i j = e := by
  have hcheck : M.checkSymmetric transposed = .error e ↔
      ∃ e', M.pattern.entries.find? (fun e ↦ !M.agrees transposed e) = some e' ∧
        .massNotSymmetric e'.row e'.column = e := by
    rw [checkSymmetric_eq_find?]
    cases M.pattern.entries.find? fun e ↦ !M.agrees transposed e <;> simp
  rw [hcheck]
  simp only [SparsityPattern.entries_find?_eq_some_iff, Bool.not_eq_true', Bool.not_eq_false']
  constructor
  · rintro ⟨⟨i, j, p⟩, ⟨hij, hne, hbefore⟩, herror⟩
    obtain ⟨-, m, m', -, hm, -, hji⟩ := exists_values_of_stores htransposed hij
    have hne := (agrees_eq htransposed hij hm hji).symm.trans hne
    refine ⟨i, j, ⟨p, m, m', hij, hm, hji, hne, ?_⟩, herror⟩
    intro q hq k l a a' hkl ha ha'
    exact (agrees_eq htransposed hkl ha ha').symm.trans (hbefore q hq k l hkl)
  · rintro ⟨i, j, ⟨p, m, m', hij, hm, hji, hne, hbefore⟩, herror⟩
    refine ⟨⟨i, j, p⟩, ⟨hij, (agrees_eq htransposed hij hm hji).trans hne, ?_⟩, herror⟩
    intro q hq k l hkl
    obtain ⟨-, a, a', -, ha, -, ha'⟩ := exists_values_of_stores htransposed hkl
    exact (agrees_eq htransposed hkl ha ha').trans (hbefore q hq k l a a' hkl ha ha')

end CsrMatrix

section LumpedMass

variable [Scalar α] {lumped : Array α}

def checkLumpedLength (numNodes : Nat) (lumped : Array α) : Except GraphError Unit :=
  if lumped.size = numNodes then .ok () else .error (.lumpedMassLength numNodes lumped.size)

def checkLumpedPositive (lumped : Array α) : Except GraphError Unit :=
  match lumped.findIdx? fun m ↦ !decide (0 < m) with
  | some dof => .error (.nonPositiveLumpedMass dof)
  | none => .ok ()

theorem checkLumpedMass_eq_bind (numNodes : Nat) : checkLumpedMass numNodes lumped =
    checkLumpedLength numNodes lumped >>= fun _ ↦ checkLumpedPositive lumped := by
  rw [checkLumpedMass, checkLumpedLength]
  by_cases h : lumped.size = numNodes
  · rw [if_neg (not_not.2 h), if_pos h]
    rfl
  · rw [if_pos h, if_neg h]
    rfl

theorem findIdx?_eq_some_iff_firstNotPositive {i : Nat} :
    lumped.findIdx? (fun v ↦ !decide (0 < v)) = some i ↔ FirstNotPositive lumped i := by
  rw [Array.findIdx?_eq_some_iff_getElem]
  constructor
  · rintro ⟨hi, hv, hbefore⟩
    refine ⟨lumped[i], Array.getElem?_eq_getElem hi, by simpa using hv, ?_⟩
    intro k hk w hw
    obtain ⟨_, rfl⟩ := Array.getElem?_eq_some_iff.1 hw
    simpa using hbefore k hk
  · rintro ⟨v, hv, hpos, hbefore⟩
    obtain ⟨hi, rfl⟩ := Array.getElem?_eq_some_iff.1 hv
    refine ⟨hi, by simpa using hpos, ?_⟩
    intro k hk
    simpa using hbefore k hk _ (Array.getElem?_eq_getElem (hk.trans hi))

theorem checkLumpedPositive_eq_error_iff {e : GraphError} : checkLumpedPositive lumped = .error e ↔
    ∃ i, FirstNotPositive lumped i ∧ .nonPositiveLumpedMass i = e := by
  simp only [← findIdx?_eq_some_iff_firstNotPositive, checkLumpedPositive]
  cases lumped.findIdx? fun m ↦ !decide (0 < m) <;> simp

end LumpedMass

namespace GraphOperator

variable [Scalar α]

structure Acceptable (mass advection : CsrMatrix α) (lumped : Array α) : Prop where
  mass_square : mass.numRows = mass.numCols
  advection_square : advection.numRows = advection.numCols
  same_pattern : mass.pattern = advection.pattern
  structurally_symmetric : ∀ i j, mass.pattern.Stored i j → mass.pattern.Stored j i
  mass_symmetric : ∀ i j m m', mass.Holds i j m → mass.Holds j i m' → (m == m') = true
  lumped_length : lumped.size = mass.numRows
  lumped_positive : ∀ (i : Nat) (m : α), lumped[i]? = some m → 0 < m

/-- The requirements in the order of the checks: number `k` is broken and reports `e`. -/
def Breaks (mass advection : CsrMatrix α) (lumped : Array α) (k : Nat) (e : GraphError) : Prop :=
  match k with
  | 0 => mass.numRows ≠ mass.numCols ∧ .notSquare "mass" mass.numRows mass.numCols = e
  | 1 => advection.numRows ≠ advection.numCols ∧
    .notSquare "advection" advection.numRows advection.numCols = e
  | 2 => mass.pattern ≠ advection.pattern ∧ .sparsityMismatch = e
  | 3 => ∃ i j, mass.pattern.FirstUnmatched i j ∧ .notStructurallySymmetric i j = e
  | 4 => ∃ i j, mass.FirstAsymmetric i j ∧ .massNotSymmetric i j = e
  | 5 => lumped.size ≠ mass.numRows ∧ .lumpedMassLength mass.numRows lumped.size = e
  | 6 => ∃ i, FirstNotPositive lumped i ∧ .nonPositiveLumpedMass i = e
  | _ => False

variable {mass advection : CsrMatrix α} {lumped : Array α}

theorem Acceptable.not_breaks (h : Acceptable mass advection lumped) (k : Nat) (e : GraphError) :
    ¬ Breaks mass advection lumped k e := by
  unfold Breaks
  split
  · exact fun hbreaks ↦ hbreaks.1 h.mass_square
  · exact fun hbreaks ↦ hbreaks.1 h.advection_square
  · exact fun hbreaks ↦ hbreaks.1 h.same_pattern
  · rintro ⟨i, j, ⟨p, hij, hji, -⟩, -⟩
    exact hji (h.structurally_symmetric i j ⟨p, hij⟩)
  · rintro ⟨i, j, ⟨p, m, m', hij, hm, hji, hne, -⟩, -⟩
    rw [h.mass_symmetric i j m m' ⟨p, hij, hm⟩ hji] at hne
    cases hne
  · exact fun hbreaks ↦ hbreaks.1 h.lumped_length
  · rintro ⟨i, ⟨m, hm, hpos, -⟩, -⟩
    exact hpos (h.lumped_positive i m hm)
  · exact id

def checkSamePattern (mass advection : CsrMatrix α) : Except GraphError Unit :=
  if mass.pattern = advection.pattern then .ok () else .error .sparsityMismatch

theorem withLumpedMass_eq_checks : withLumpedMass mass advection lumped = (do
    mass.checkSquare "mass"
    advection.checkSquare "advection"
    checkSamePattern mass advection
    let transposeOffsets ← mass.pattern.transposeOffsets
    mass.checkSymmetric transposeOffsets
    checkLumpedLength mass.numRows lumped
    checkLumpedPositive lumped
    return { mass, advection, lumpedMass := lumped, transposeOffsets }) := by
  simp only [withLumpedMass, checkLumpedMass_eq_bind, bind_assoc, checkSamePattern]
  by_cases h : mass.pattern = advection.pattern <;> simp [h] <;> rfl

theorem withLumpedMass_eq_error_iff (e : GraphError) :
    withLumpedMass mass advection lumped = .error e ↔
      FirstBroken (Breaks mass advection lumped) 0 e := by
  rw [withLumpedMass_eq_checks]
  refine bind_eq_error_iff_firstBroken (fun _ ↦ CsrMatrix.checkSquare_eq_error_iff) (fun _ _ ↦ ?_) e
  refine bind_eq_error_iff_firstBroken (fun _ ↦ CsrMatrix.checkSquare_eq_error_iff) (fun _ _ ↦ ?_)
  refine bind_eq_error_iff_firstBroken (fun _ ↦ ite_eq_error_iff) (fun _ _ ↦ ?_)
  refine bind_eq_error_iff_firstBroken (fun _ ↦ SparsityPattern.transposeOffsets_eq_error_iff)
    (fun transposed htransposed ↦ ?_)
  refine bind_eq_error_iff_firstBroken
    (fun _ ↦ CsrMatrix.checkSymmetric_eq_error_iff htransposed) (fun _ _ ↦ ?_)
  refine bind_eq_error_iff_firstBroken (fun _ ↦ ite_eq_error_iff) (fun _ _ ↦ ?_)
  refine bind_eq_error_iff_firstBroken (fun _ ↦ checkLumpedPositive_eq_error_iff)
    (fun _ _ e ↦ ?_)
  -- No requirement is left.
  constructor
  · intro h
    cases h
  · rintro ⟨l, hl, hbreaks, -⟩
    obtain ⟨k, rfl⟩ := Nat.exists_eq_add_of_le' hl
    exact hbreaks.elim

theorem exists_withLumpedMass_eq_ok_iff :
    (∃ g, withLumpedMass mass advection lumped = .ok g) ↔ Acceptable mass advection lumped := by
  constructor
  · rintro ⟨g, h⟩
    obtain ⟨rfl, rfl, rfl, hg⟩ := withLumpedMass_eq_ok_iff.1 h
    refine ⟨hg.mass_square, hg.advection_square, hg.pattern_eq, ?_,
      fun _ _ _ _ ↦ hg.mass_beq_of_holds, hg.size_lumped, ?_⟩
    · rintro i j ⟨p, hp⟩
      obtain ⟨q, -, hq⟩ := hg.transpose_stores hp
      exact ⟨q, hq⟩
    · intro i m hm
      exact hg.lumped_pos m (Array.mem_of_getElem? hm)
  · intro h
    cases hresult : withLumpedMass mass advection lumped with
    | ok g => exact ⟨g, rfl⟩
    | error e =>
      obtain ⟨k, -, hbreaks, -⟩ := (withLumpedMass_eq_error_iff e).1 hresult
      exact absurd hbreaks (h.not_breaks k e)

end GraphOperator

end GraphTransport
