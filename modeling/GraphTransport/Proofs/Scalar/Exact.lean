import Mathlib.Algebra.Order.Field.Basic
import Mathlib.Data.Rat.Cast.CharZero
import GraphTransport.Proofs.Graph.Edges

namespace GraphTransport

variable {F : Type} [LinearOrder F]

theorem le_foldl_min_iff {l : List F} {a c : F} : c ≤ l.foldl min a ↔ ∀ b ∈ a :: l, c ≤ b := by
  induction l generalizing a with
  | nil => simp
  | cons b l ih => rw [List.foldl_cons, ih]; simp [and_assoc]

theorem foldl_max_le_iff {l : List F} {a c : F} : l.foldl max a ≤ c ↔ ∀ b ∈ a :: l, b ≤ c :=
  le_foldl_min_iff (F := Fᵒᵈ)

variable [Field F]

instance (priority := low) instScalarOfField : Scalar F where
  abs a := |a|
  decidableLT := inferInstance
  decidableLE := inferInstance

instance (priority := low) : SymmetricViscosity F := ⟨fun _ _ ↦ max_comm _ _⟩

namespace Edge

variable (e : Edge F)

theorem abs_forward_le : |e.forward| ≤ e.viscosity := le_max_left _ _

theorem abs_backward_le : |e.backward| ≤ e.viscosity := le_max_right _ _

theorem viscosity_nonneg [IsStrictOrderedRing F] : 0 ≤ e.viscosity :=
  (abs_nonneg _).trans e.abs_forward_le

end Edge

theorem GraphOperator.sum_edgeList (g : GraphOperator F) (i : Nat) (f : Edge F → F) :
    ((g.edgeList i).map f).sum = ∑ j ∈ Finset.range g.numNodes, (g.edge? i j).elim 0 f :=
  sum_map_filterMap_range _ f _

end GraphTransport
