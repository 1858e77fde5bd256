import Mathlib.Algebra.BigOperators.Group.List.Basic
import Mathlib.Algebra.BigOperators.Group.Finset.Basic
import Mathlib.Data.List.Sort
import GraphTransport.Violation

namespace GraphTransport

variable {ε α β σ : Type}

theorem bind_eq_ok {x : Except ε α} {f : α → Except ε β} {b : β} :
    (x >>= f) = .ok b ↔ ∃ a, x = .ok a ∧ f a = .ok b := by
  cases x <;> simp [bind, Except.bind]

theorem ok_bind (a : α) (f : α → Except ε β) : (Except.ok a >>= f) = f a := rfl

theorem bind_congr_of_ok {x x' : Except ε α} {f f' : α → Except ε β} (hx : x = x')
    (h : ∀ a, x' = .ok a → f a = f' a) : x >>= f = x' >>= f' := by
  subst hx
  cases x with
  | error e => rfl
  | ok a => exact h a rfl

theorem mapError_eq_ok_iff {ε' : Type} {g : ε → ε'} {x : Except ε α} {a : α} :
    x.mapError g = .ok a ↔ x = .ok a := by
  cases x <;> simp [Except.mapError]

theorem ite_error_eq_ok_iff {p : Prop} [Decidable p] {e : ε} {x : Except ε α} {a : α} :
    (if p then .error e else x) = .ok a ↔ ¬ p ∧ x = .ok a := by
  by_cases hp : p
  · simp [hp]
  · simp [hp]

theorem mapM_eq_ok_map {f : α → Except ε β} {g : α → β} {l : List α}
    (h : ∀ a ∈ l, f a = .ok (g a)) : l.mapM f = .ok (l.map g) := by
  induction l with
  | nil => rfl
  | cons a l ih =>
    obtain ⟨ha, hl⟩ := List.forall_mem_cons.1 h
    rw [List.mapM_cons, ha, ok_bind, ih hl]
    rfl

theorem foldlM_eq_ok_foldl {f : σ → α → Except ε σ} {g : σ → α → σ} {l : List α}
    (h : ∀ s, ∀ a ∈ l, f s a = .ok (g s a)) (s : σ) : l.foldlM f s = .ok (l.foldl g s) := by
  induction l generalizing s with
  | nil => rfl
  | cons a l ih =>
    rw [List.foldlM_cons, h s a List.mem_cons_self, ok_bind, List.foldl_cons]
    exact ih (fun s b hb ↦ h s b (List.mem_cons_of_mem a hb)) (g s a)

theorem length_of_mapM_eq_ok {f : α → Except ε β} {l : List α} {bs : List β}
    (h : l.mapM f = .ok bs) : bs.length = l.length := by
  induction l generalizing bs with
  | nil =>
    cases h
    rfl
  | cons a l ih =>
    rw [List.mapM_cons, bind_eq_ok] at h
    obtain ⟨b, -, h⟩ := h
    obtain ⟨bs', hbs', h⟩ := bind_eq_ok.1 h
    cases h
    rw [List.length_cons, List.length_cons, ih hbs']

theorem getElem?_of_mapM_eq_ok {f : α → Except ε β} {l : List α} {bs : List β}
    (h : l.mapM f = .ok bs) {p : Nat} {a : α} (ha : l[p]? = some a) :
    ∃ b, bs[p]? = some b ∧ f a = .ok b := by
  induction l generalizing p bs with
  | nil => simp at ha
  | cons c l ih =>
    rw [List.mapM_cons, bind_eq_ok] at h
    obtain ⟨b, hb, h⟩ := h
    obtain ⟨bs', hbs', h⟩ := bind_eq_ok.1 h
    obtain rfl : b :: bs' = bs := by simpa [pure, Except.pure] using h
    cases p with
    | zero =>
      obtain rfl : c = a := by simpa using ha
      exact ⟨b, rfl, hb⟩
    | succ p => exact ih hbs' (by simpa using ha)

theorem mapM_congr {f f' : α → Except ε β} {l : List α} (h : ∀ a ∈ l, f a = f' a) :
    l.mapM f = l.mapM f' := by
  induction l with
  | nil => rfl
  | cons a l ih =>
    obtain ⟨ha, hl⟩ := List.forall_mem_cons.1 h
    rw [List.mapM_cons, List.mapM_cons, ha, ih hl]

theorem forM_congr {f f' : α → Except ε PUnit} {l : List α} (h : ∀ a ∈ l, f a = f' a) :
    forM l f = forM l f' := by
  induction l with
  | nil => rfl
  | cons a l ih =>
    obtain ⟨ha, hl⟩ := List.forall_mem_cons.1 h
    rw [List.forM_cons, List.forM_cons, ha, ih hl]

theorem mapM_mapM_eq_mapM_flatMap (f : α → Except ε β) (lane : σ → List α) (l : List σ) :
    (l.mapM fun s ↦ (lane s).mapM f) >>= (fun rows ↦ pure rows.flatten) =
      (l.flatMap lane).mapM f := by
  induction l with
  | nil => rfl
  | cons s l ih =>
    rw [List.flatMap_cons, List.mapM_append, ← ih, List.mapM_cons]
    simp only [bind_assoc, pure_bind, List.flatten_cons]

theorem forM_forM_eq_forM_flatMap (f : α → Except ε PUnit) (lane : σ → List α) (l : List σ) :
    (forM l fun s ↦ forM (lane s) f) = forM (l.flatMap lane) f := by
  induction l with
  | nil => rfl
  | cons s l ih => rw [List.flatMap_cons, List.forM_append, ← ih, List.forM_cons]

theorem mapM_mapError {ε' : Type} (f : α → Except ε β) (g : ε → ε') (l : List α) :
    (l.mapM fun a ↦ (f a).mapError g) = (l.mapM f).mapError g := by
  induction l with
  | nil => rfl
  | cons a l ih =>
    rw [List.mapM_cons, List.mapM_cons, ih]
    cases f a with
    | error e => rfl
    | ok b => cases l.mapM f <;> rfl

theorem forM_ite_eq_find? (p : α → Bool) (g : α → ε) (l : List α) :
    (forM l fun a ↦ if p a then Except.ok () else .error (g a)) =
      match l.find? (fun a ↦ !p a) with
      | some a => Except.error (g a)
      | none => .ok () := by
  induction l with
  | nil => rfl
  | cons a l ih =>
    rw [List.forM_cons]
    cases ha : p a with
    | true =>
      rw [List.find?_cons_of_neg (by simp [ha]), ← ih]
      rfl
    | false =>
      rw [List.find?_cons_of_pos (by simp [ha])]
      rfl

theorem mapM_eq_error_iff {f : α → Except ε β} {l : List α} {e : ε} :
    l.mapM f = .error e ↔ ∃ a, l.find? (fun a ↦ !(f a).isOk) = some a ∧ f a = .error e := by
  induction l with
  | nil => simp [pure, Except.pure]
  | cons a l ih =>
    rw [List.mapM_cons]
    cases ha : f a with
    | error e' =>
      rw [List.find?_cons_of_pos (by simp [ha, Except.isOk, Except.toBool])]
      simp [ha, bind, Except.bind]
    | ok b =>
      rw [List.find?_cons_of_neg (by simp [ha, Except.isOk, Except.toBool]), ← ih, ok_bind]
      cases l.mapM f <;> simp [bind, Except.bind, pure, Except.pure]

theorem getD_of_lt {xs : Array α} {i : Nat} (h : i < xs.size) (a : α) : xs.getD i a = xs[i] := by
  rw [Array.getD_eq_getD_getElem?, Array.getElem?_eq_getElem h, Option.getD_some]

theorem fetch_eq_ok_getD [Zero α] {xs : Array α} {i : Nat} (h : i < xs.size) :
    fetch xs i = .ok (xs.getD i 0) := by
  rw [fetch_of_lt h, getD_of_lt h]

theorem toList_eq_map_range [Zero α] (xs : Array α) :
    xs.toList = (List.range xs.size).map fun i ↦ xs.getD i 0 := by
  refine List.ext_getElem (by simp) fun i hi _ ↦ ?_
  rw [Array.length_toList] at hi
  rw [List.getElem_map, List.getElem_range, getD_of_lt hi, Array.getElem_toList]

theorem eq_filter_range {l : List Nat} {n : Nat} (hl : l.Pairwise (· < ·))
    (hn : ∀ i ∈ l, i < n) : l = (List.range n).filter (· ∈ l) := by
  have hrange : ((List.range n).filter (· ∈ l)).Pairwise (· < ·) :=
    List.pairwise_lt_range.filter _
  refine List.Perm.eq_of_pairwise (fun a b _ _ ↦ fun hab hba ↦ absurd hab (Nat.lt_asymm hba))
    hl hrange ?_
  refine (List.perm_ext_iff_of_nodup (hl.imp Nat.ne_of_lt) (hrange.imp Nat.ne_of_lt)).2
    fun i ↦ ?_
  have hi := hn i
  simp
  tauto

theorem flatMap_range'_sub {start : Nat → Nat} (h : Monotone start) (h0 : start 0 = 0) (n : Nat) :
    (List.range n).flatMap (fun t ↦ List.range' (start t) (start (t + 1) - start t)) =
      List.range (start n) := by
  induction n with
  | zero => rw [h0]; rfl
  | succ n ih =>
    have happend := List.range'_append_1 (s := 0) (m := start n) (n := start (n + 1) - start n)
    rw [Nat.zero_add, Nat.add_sub_of_le (h (Nat.le_succ n))] at happend
    rw [List.range_succ, List.flatMap_append, ih, List.flatMap_singleton, List.range_eq_range',
      List.range_eq_range', happend]

theorem filterMap_filter_isSome (f : α → Option β) (p : α → Bool)
    (h : ∀ a, p a = false → f a = none) (l : List α) :
    (l.filter p).filterMap f = l.filterMap f := by
  induction l with
  | nil => rfl
  | cons a l ih =>
    cases ha : p a
    · rw [List.filter_cons_of_neg (by simp [ha]), ih, List.filterMap_cons_none (h a ha)]
    · rw [List.filter_cons_of_pos ha, List.filterMap_cons, List.filterMap_cons, ih]

theorem foldl_eq_add_sum {M : Type} [AddCommMonoid M] {step : M → α → M} {f : α → M} {l : List α}
    (h : ∀ s, ∀ a ∈ l, step s a = s + f a) (s : M) : l.foldl step s = s + (l.map f).sum := by
  induction l generalizing s with
  | nil => simp
  | cons a l ih =>
    rw [List.foldl_cons, ih (fun s b hb ↦ h s b (List.mem_cons_of_mem a hb)),
      h s a List.mem_cons_self, List.map_cons, List.sum_cons, add_assoc]

theorem sum_flatMap_range {M : Type} [AddCommMonoid M] (f : Nat → List M) (n : Nat) :
    ((List.range n).flatMap f).sum = ∑ k ∈ Finset.range n, (f k).sum := by
  induction n with
  | zero => rfl
  | succ n ih =>
    rw [List.range_succ, List.flatMap_append, List.sum_append, ih, List.flatMap_singleton,
      Finset.sum_range_succ]

/-- The sum over the selected elements of a range, as a sum in which the others count zero. -/
theorem sum_map_filterMap_range {M : Type} [AddCommMonoid M] (f : Nat → Option α) (g : α → M)
    (n : Nat) : (((List.range n).filterMap f).map g).sum =
      ∑ j ∈ Finset.range n, (f j).elim 0 g := by
  induction n with
  | zero => rfl
  | succ n ih =>
    rw [List.range_succ, List.filterMap_append, List.map_append, List.sum_append, ih,
      Finset.sum_range_succ]
    cases h : f n <;> simp [h]

section Lookup

variable {κ β : Type} [BEq κ] [LawfulBEq κ] {l l' : List (κ × β)} {k : κ} {b : β}

theorem lookup_eq_some_iff_of_nodup (h : (l.map Prod.fst).Nodup) :
    l.lookup k = some b ↔ (k, b) ∈ l := by
  induction l with
  | nil => simp
  | cons first l ih =>
    obtain ⟨k', b'⟩ := first
    obtain ⟨hfirst, hrest⟩ := List.nodup_cons.1 h
    by_cases hk : k = k'
    · subst hk
      have habsent : (k, b) ∉ l := fun hmem ↦ hfirst (List.mem_map.2 ⟨_, hmem, rfl⟩)
      simp [habsent, eq_comm]
    · rw [List.lookup_cons, beq_eq_false_iff_ne.2 hk]
      simp [ih hrest, hk]

theorem lookup_eq_of_perm (h : (l.map Prod.fst).Nodup) (hperm : l'.Perm l) :
    l'.lookup k = l.lookup k := by
  have h' : (l'.map Prod.fst).Nodup := (hperm.map Prod.fst).nodup_iff.2 h
  apply Option.ext
  intro b
  rw [lookup_eq_some_iff_of_nodup h, lookup_eq_some_iff_of_nodup h', hperm.mem_iff]

end Lookup

end GraphTransport
