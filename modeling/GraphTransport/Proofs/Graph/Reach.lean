import GraphTransport.Proofs.Graph.Edges

namespace GraphTransport.GraphOperator

variable {α : Type}

/-- At most `r` edges lead from node `i` to node `k`, each to a node that the row stores. -/
inductive Within (g : GraphOperator α) : Nat → Nat → Nat → Prop
  | refl (r i : Nat) : g.Within r i i
  | step {r i j k : Nat} : j ∈ g.neighbors i → g.Within r j k → g.Within (r + 1) i k

def AgreeWithin (g : GraphOperator α) (r i : Nat) (u u' : Nat → α) : Prop :=
  ∀ k, g.Within r i k → u k = u' k

variable {g : GraphOperator α} {r s i j k : Nat} {u u' : Nat → α}

namespace Within

theorem mono (h : g.Within r i k) (hrs : r ≤ s) : g.Within s i k := by
  induction h generalizing s with
  | refl _ i => exact .refl s i
  | step hj _ ih =>
    obtain ⟨s, rfl⟩ := Nat.exists_eq_add_of_lt (Nat.lt_of_succ_le hrs)
    exact .step hj (ih (by omega))

theorem trans (h : g.Within r i j) (h' : g.Within s j k) : g.Within (r + s) i k := by
  induction h with
  | refl r i => exact h'.mono (Nat.le_add_left s r)
  | @step r i _ _ hj _ ih =>
    rw [Nat.add_right_comm]
    exact .step hj (ih h')

theorem lt (h : g.Within r i k) (hi : i < g.numNodes) : k < g.numNodes := by
  induction h with
  | refl => exact hi
  | step hj _ ih => exact ih (lt_of_mem_neighbors hj)

theorem le_add (h : g.Within r i k) (hi : i < g.numNodes)
    (hnext : ∀ i < g.numNodes, ∀ j ∈ g.neighbors i, j ≤ i + 1) : k ≤ i + r := by
  induction h with
  | refl r i => exact Nat.le_add_right i r
  | step hj _ ih =>
    have hfirst := hnext _ hi _ hj
    have hrest := ih (lt_of_mem_neighbors hj)
    omega

end Within

namespace AgreeWithin

theorem self (h : g.AgreeWithin r i u u') : u i = u' i := h i (.refl r i)

theorem mono (h : g.AgreeWithin s i u u') (hrs : r ≤ s) : g.AgreeWithin r i u u' :=
  fun k hk ↦ h k (hk.mono hrs)

theorem around (h : g.AgreeWithin (r + s) i u u') (hj : g.Within r i j) :
    g.AgreeWithin s j u u' :=
  fun k hk ↦ h k (hj.trans hk)

theorem of_lt (h : ∀ j < g.numNodes, u j = u' j) (hi : i < g.numNodes) :
    g.AgreeWithin r i u u' :=
  fun k hk ↦ h k (hk.lt hi)

end AgreeWithin

theorem within_one_of_mem (hj : j ∈ g.neighbors i) : g.Within 1 i j := .step hj (.refl 0 j)

theorem within_one_of_edge [Scalar α] {e : Edge α} (he : e ∈ g.edgeList i) :
    g.Within 1 i e.neighbor := by
  obtain ⟨hlt, hedge⟩ := mem_edgeList.1 he
  exact within_one_of_mem (mem_neighbors_iff.2 ⟨hlt, stored_of_edge? hedge⟩)

def Connected (g : GraphOperator α) : Prop :=
  ∀ i < g.numNodes, ∀ k < g.numNodes, ∃ r, g.Within r i k

theorem within_add (hnext : ∀ i, i + 1 < g.numNodes → i + 1 ∈ g.neighbors i)
    (hk : i + r < g.numNodes) : g.Within r i (i + r) := by
  induction r generalizing i with
  | zero => exact .refl 0 i
  | succ r ih =>
    rw [← Nat.add_assoc, Nat.add_right_comm] at hk ⊢
    exact .step (hnext i (by omega)) (ih hk)

theorem within_of_add (hback : ∀ i, i + 1 < g.numNodes → i ∈ g.neighbors (i + 1))
    (hk : i + r < g.numNodes) : g.Within r (i + r) i := by
  induction r with
  | zero => exact .refl 0 i
  | succ r ih => exact .step (hback (i + r) hk) (ih (by omega))

theorem connected_of_next (hnext : ∀ i, i + 1 < g.numNodes → i + 1 ∈ g.neighbors i)
    (hback : ∀ i, i + 1 < g.numNodes → i ∈ g.neighbors (i + 1)) : g.Connected := by
  intro i hi k hk
  rcases Nat.le_total i k with h | h
  · obtain ⟨r, rfl⟩ := Nat.exists_eq_add_of_le h
    exact ⟨r, within_add hnext hk⟩
  · obtain ⟨r, rfl⟩ := Nat.exists_eq_add_of_le h
    exact ⟨r, within_of_add hback hi⟩

end GraphTransport.GraphOperator
