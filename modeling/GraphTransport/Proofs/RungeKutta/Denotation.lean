import Mathlib.Algebra.BigOperators.Ring.Finset
import GraphTransport.Proofs.RungeKutta.Replies
import GraphTransport.Proofs.RungeKutta.StrongStability
import GraphTransport.Proofs.Scheme.Pointwise

namespace GraphTransport

namespace Tableau

variable {α : Type} [Scalar α] {name : String} {a b : Array α} {T : Tableau α}

theorem isStrictlyLower_iff {n : Nat} {coefficients : Vector (Vector α n) n} :
    isStrictlyLower coefficients ↔
      ∀ s l : Fin n, s ≤ l → ((coefficients.get s).get l == 0) = true := by
  simp only [isStrictlyLower, List.all_eq_true, List.mem_finRange, true_implies, Bool.or_eq_true,
    decide_eq_true_iff]
  constructor
  · intro h s l hsl
    exact (h s l).resolve_left (not_lt.2 hsl)
  · intro h s l
    rcases lt_or_ge l s with hlt | hle
    · exact .inl hlt
    · exact .inr (h s l hle)

def rows (a : Array α) (n : Nat) : Vector (Vector α n) n :=
  Vector.ofFn fun s ↦ Vector.ofFn fun l ↦ valueAt a (s * n + l)

theorem get_rows {n : Nat} (s l : Fin n) :
    ((rows a n).get s).get l = valueAt a (s * n + l) := by
  have hrow : (rows a n)[s.val] = Vector.ofFn fun l ↦ valueAt a (s * n + l) :=
    Vector.getElem_ofFn s.isLt
  exact (congrArg (Vector.get · l) hrow).trans (Vector.getElem_ofFn l.isLt)

theorem entry_lt {n s l : Nat} (hs : s < n) (hl : l < n) : s * n + l < n * n := by
  have hrows := Nat.mul_le_mul_right n hs
  rw [Nat.succ_mul] at hrows
  omega

theorem ofCoefficients_eq (hb : b.size ≠ 0) (ha : a.size = b.size * b.size) :
    ofCoefficients name a b = if isStrictlyLower (rows a b.size) then
      .ok ⟨name, b.size, rows a b.size, b.toVector⟩ else .error .tableauNotStrictlyLower := by
  unfold ofCoefficients
  dsimp only
  rw [if_neg hb, dif_pos ha]
  have hrows : (Vector.ofFn fun s : Fin b.size ↦ Vector.ofFn fun l : Fin b.size ↦
      have : s.val * b.size + l.val < a.size := ha ▸ entry_lt s.isLt l.isLt
      a[s.val * b.size + l.val]) = rows a b.size := by
    apply Vector.ext
    intro s hs
    apply Vector.ext
    intro l hl
    have hentry : s * b.size + l < a.size := ha ▸ entry_lt hs hl
    simp only [rows, Vector.getElem_ofFn, valueAt, getD_of_lt hentry]
  rw [hrows]

/-- The arrays hold a row of coefficients for every weight, and no row has one on or above the
diagonal that is not zero. -/
structure Explicit (a b : Array α) : Prop where
  hasStages : b.size ≠ 0
  size_eq : a.size = b.size * b.size
  lower : ∀ s l c, s ≤ l → l < b.size → a[s * b.size + l]? = some c → (c == 0) = true

theorem isStrictlyLower_rows_iff (ha : a.size = b.size * b.size) :
    isStrictlyLower (rows a b.size) ↔
      ∀ s l c, s ≤ l → l < b.size → a[s * b.size + l]? = some c → (c == 0) = true := by
  rw [isStrictlyLower_iff]
  constructor
  · intro h s l c hsl hl hc
    have hentry := h ⟨s, hsl.trans_lt hl⟩ ⟨l, hl⟩ hsl
    rwa [get_rows, valueAt, Array.getD_eq_getD_getElem?, hc] at hentry
  · intro h s l hsl
    have hentry : s * b.size + l < a.size := ha ▸ entry_lt s.isLt l.isLt
    rw [get_rows, valueAt, getD_of_lt hentry]
    exact h s l _ hsl l.isLt (Array.getElem?_eq_getElem hentry)

theorem exists_ofCoefficients_eq_ok_iff :
    (∃ T, ofCoefficients name a b = .ok T) ↔ Explicit a b := by
  constructor
  · intro h
    obtain ⟨T, hT⟩ := h
    have hb : b.size ≠ 0 := by
      intro hb
      simp [ofCoefficients, hb] at hT
    have ha : a.size = b.size * b.size := by
      by_contra ha
      simp [ofCoefficients, hb, ha] at hT
    rw [ofCoefficients_eq hb ha] at hT
    refine ⟨hb, ha, (isStrictlyLower_rows_iff ha).1 ?_⟩
    by_contra hlower
    rw [if_neg hlower] at hT
    cases hT
  · intro h
    rw [ofCoefficients_eq h.hasStages h.size_eq,
      if_pos ((isStrictlyLower_rows_iff h.size_eq).2 h.lower)]
    exact ⟨_, rfl⟩

theorem not_explicit_iff : ¬ Explicit a b ↔ b.size = 0 ∨ a.size ≠ b.size * b.size ∨
    ∃ s l c, s ≤ l ∧ l < b.size ∧ a[s * b.size + l]? = some c ∧ (c == 0) = false := by
  constructor
  · intro h
    by_cases hb : b.size = 0
    · exact .inl hb
    by_cases ha : a.size = b.size * b.size
    · refine .inr (.inr ?_)
      by_contra hnone
      refine h ⟨hb, ha, ?_⟩
      intro s l c hsl hl hc
      by_contra hne
      exact hnone ⟨s, l, c, hsl, hl, hc, Bool.eq_false_iff.2 hne⟩
    · exact .inr (.inl ha)
  · intro h hexplicit
    rcases h with hb | ha | ⟨s, l, c, hsl, hl, hc, hne⟩
    · exact hexplicit.hasStages hb
    · exact ha hexplicit.size_eq
    · exact Bool.eq_false_iff.1 hne (hexplicit.lower s l c hsl hl hc)

theorem exists_ofCoefficients_eq_error_iff :
    (∃ v, ofCoefficients name a b = .error v) ↔ ¬ Explicit a b := by
  have hok : (∃ T, ofCoefficients name a b = .ok T) ↔ Explicit a b :=
    exists_ofCoefficients_eq_ok_iff
  rw [← hok]
  cases ofCoefficients name a b with
  | error v => simp
  | ok T => simp

structure HasCoefficients (T : Tableau α) (a b : Array α) : Prop where
  numStages_eq : T.numStages = b.size
  coefficient_eq : ∀ s l : Fin T.numStages,
    (T.coefficients.get s).get l = valueAt a (s * b.size + l)
  weight_eq : ∀ s : Fin T.numStages, T.weights.get s = valueAt b s

theorem hasCoefficients_of_ofCoefficients (h : ofCoefficients name a b = .ok T) :
    T.HasCoefficients a b := by
  have hexplicit := exists_ofCoefficients_eq_ok_iff.1 ⟨T, h⟩
  rw [ofCoefficients_eq hexplicit.hasStages hexplicit.size_eq] at h
  split at h
  · obtain rfl := Except.ok.inj h
    refine ⟨rfl, fun s l ↦ get_rows s l, fun s ↦ ?_⟩
    rw [valueAt, getD_of_lt s.isLt]
    rfl
  · cases h

end Tableau

section Exact

variable {F : Type} [Field F] [LinearOrder F] {n : Nat}

def combine (dt : F) (x : Vector F n) (c : Nat → F) (k : Nat → Vector F n) (m : Nat) :
    Vector F n :=
  Vector.ofFn fun p ↦ x.get p + dt * ∑ l ∈ Finset.range m, c l * (k l).get p

variable {dt : F} {x : Vector F n} {c : Nat → F} {k : Nat → Vector F n}

theorem getElem_combine {m p : Nat} (hp : p < n) :
    (combine dt x c k m)[p] = x[p] + dt * ∑ l ∈ Finset.range m, c l * (k l)[p] :=
  Vector.getElem_ofFn hp

theorem combine_zero : combine dt x c k 0 = x := by
  apply Vector.ext
  intro p hp
  rw [getElem_combine, Finset.sum_range_zero, mul_zero, add_zero]

theorem combine_succ (m : Nat) :
    combine dt x c k (m + 1) = addSlope dt (c m) (k m) (combine dt x c k m) := by
  apply Vector.ext
  intro p hp
  rw [getElem_addSlope, getElem_combine, getElem_combine, Finset.sum_range_succ]
  ring

theorem fold_eq_combine {m : Nat} {step : (l : Nat) → l < m → Vector F n → Vector F n}
    (hstep : ∀ l hl y, step l hl y = addSlope dt (c l) (k l) y) :
    Nat.fold m step x = combine dt x c k m := by
  induction m with
  | zero => exact combine_zero.symm
  | succ m ih =>
    rw [Nat.fold_succ, hstep, ih fun l hl y ↦ hstep l (Nat.lt_succ_of_lt hl) y, combine_succ]

namespace Tableau.HasCoefficients

variable {T : Tableau F} {a b : Array F} {slopes : Vector (Vector F n) T.numStages}

theorem stageState_eq (hT : T.HasCoefficients a b)
    (hk : ∀ l : Fin T.numStages, k l = slopes.get l) (s : Fin T.numStages) :
    T.stageState dt x slopes s = combine dt x (fun l ↦ valueAt a (s * b.size + l)) k s := by
  apply fold_eq_combine
  intro l hl y
  have hentry := hT.coefficient_eq s ⟨l, hl.trans s.isLt⟩
  have hslope := hk ⟨l, hl.trans s.isLt⟩
  rw [← hentry, hslope]
  rfl

theorem advance_eq (hT : T.HasCoefficients a b)
    (hk : ∀ l : Fin T.numStages, k l = slopes.get l) :
    T.advance dt x slopes = combine dt x (valueAt b) k b.size := by
  rw [← hT.numStages_eq]
  apply fold_eq_combine
  intro s hs y
  have hweight := hT.weight_eq ⟨s, hs⟩
  have hslope := hk ⟨s, hs⟩
  rw [← hweight, hslope]
  rfl

end Tableau.HasCoefficients

theorem eq_range_of_range_eq_append {m s : Nat} {before after : List Nat}
    (h : List.range m = before ++ s :: after) : s < m ∧ before = List.range s := by
  rw [List.range_eq_range', List.range'_eq_append_iff] at h
  obtain ⟨i, -, hbefore, hrest⟩ := h
  obtain ⟨hs, hlt, -⟩ := List.range'_eq_cons_iff.1 hrest.symm
  obtain rfl : i = s := by simpa using hs
  exact ⟨by omega, hbefore.trans List.range_eq_range'.symm⟩

/-- The state of stage `s` of the method with the coefficients `a` and the weights `b`. -/
def stageOf (a b : Array F) (dt : F) (x : Vector F n) (k : Nat → Vector F n) (s : Nat) :
    Vector F n :=
  combine dt x (fun l ↦ valueAt a (s * b.size + l)) k s

def repliesOf (ε : Type) (a b : Array F) (dt : F) (x : Vector F n) (k : Nat → Vector F n)
    (m : Nat) : List (Reply ε F) :=
  (List.range m).map fun s ↦ .of (stageOf a b dt x k s) (k s) (.ok ())

variable {ε σ : Type}

theorem Solver.Answered.eq_repliesOf {T : Tableau F} {a b : Array F} (hT : T.HasCoefficients a b)
    {slopes : Vector (Vector F n) T.numStages} (hk : ∀ l : Fin T.numStages, k l = slopes.get l)
    {outcome : Except (Fault ε) Unit} {replies : List (Reply ε F)}
    (h : Answered T dt x (List.finRange _) outcome slopes replies) :
    (outcome = .ok () → replies = repliesOf ε a b dt x k b.size) ∧
      ∀ e, outcome = .error e → ∃ m < b.size, replies =
        repliesOf ε a b dt x k m ++ [.of (stageOf a b dt x k m) (k m) (.error e)] := by
  have hstage (outcome : Except (Fault ε) Unit) (s : Fin T.numStages) :
      stageReply T dt x slopes outcome s = .of (stageOf a b dt x k s) (k s) outcome := by
    rw [stageReply, hT.stageState_eq hk, hk]
    rfl
  let succeeded : Except (Fault ε) Unit := .ok ()
  have hstages (stages : List (Fin T.numStages)) :
      stages.map (stageReply T dt x slopes succeeded) = (stages.map Fin.val).map fun s ↦
        .of (stageOf a b dt x k s) (k s) succeeded := by
    rw [List.map_map]
    exact List.map_congr_left fun s _ ↦ hstage succeeded s
  constructor
  · intro hok
    rw [h.of_ok hok, hstages, List.map_coe_finRange_eq_range, hT.numStages_eq]
    rfl
  · intro e he
    obtain ⟨before, s, after, hall, hreplies⟩ := h.of_error e he
    have hrange := congrArg (List.map Fin.val) hall
    rw [List.map_coe_finRange_eq_range, List.map_append, List.map_cons] at hrange
    obtain ⟨hs, hbefore⟩ := eq_range_of_range_eq_append hrange
    refine ⟨s, hs.trans_eq hT.numStages_eq, ?_⟩
    rw [hreplies, hstages, hbefore, hstage]
    rfl

/-- A tableau is refused just if it is not that of an explicit method. A step with an accepted one
asks for the slopes of the method in order, up to the first that fails, and ends at the state of the
method if none does. -/
theorem step_of_ofCoefficients {α : Type} [Scalar α] :
    (∀ (name : String) (a b : Array α), (∃ v, Tableau.ofCoefficients name a b = .error v) ↔
      b.size = 0 ∨ a.size ≠ b.size * b.size ∨
        ∃ s l c, s ≤ l ∧ l < b.size ∧ a[s * b.size + l]? = some c ∧ (c == 0) = false) ∧
    ∀ (name : String) (a b : Array F) (T : Tableau F), Tableau.ofCoefficients name a b = .ok T →
      T.numStages = b.size ∧ ∀ solver : Solver F, solver.tableau = T →
      ∀ (f : RateFunction ε σ F) (x : Vector F n) (t dt : F) (memory : σ),
      ∃ k : Nat → Vector F n,
        ((solver.step f x t dt memory).outcome = .ok () →
          solver.replies f x t dt memory = repliesOf ε a b dt x k b.size ∧
          (solver.step f x t dt memory).x = combine dt x (valueAt b) k b.size ∧
          (solver.step f x t dt memory).t = t + dt) ∧
        ∀ e, (solver.step f x t dt memory).outcome = .error e → ∃ m < b.size,
          solver.replies f x t dt memory =
            repliesOf ε a b dt x k m ++ [.of (stageOf a b dt x k m) (k m) (.error e)] := by
  refine ⟨fun name a b ↦
    Tableau.exists_ofCoefficients_eq_error_iff.trans Tableau.not_explicit_iff, ?_⟩
  intro name a b T hT
  have hT := Tableau.hasCoefficients_of_ofCoefficients hT
  refine ⟨hT.numStages_eq, ?_⟩
  intro solver hsolver f x t dt memory
  subst hsolver
  obtain ⟨slopes, hanswered, hend⟩ := solver.exists_slopes_of_step f x t dt memory
  let k (s : Nat) : Vector F n := slopes[s]?.getD x
  have hk (s : Fin solver.tableau.numStages) : k s = slopes.get s := by
    simp only [k, Vector.getElem?_eq_getElem s.isLt, Option.getD_some]
    rfl
  obtain ⟨hok, herror⟩ := hanswered.eq_repliesOf hT hk
  refine ⟨k, fun h ↦ ⟨hok h, ?_, Solver.t_step_of_ok h⟩, herror⟩
  rw [(hend h).1, hT.advance_eq hk]

theorem step_of_ofCoefficients_heun :
    let a : Array ℚ := #[0, 0, 1, 0]
    let b : Array ℚ := #[1 / 2, 1 / 2]
    let x : Vector ℚ 2 := #v[1, 3]
    let f : RateFunction Unit Unit ℚ := .linear 2
    ∃ T, Tableau.ofCoefficients "heun" a b = .ok T ∧
      (∃ k, (Solver.ofTableau T).replies f x 0 (1 / 4) () = repliesOf Unit a b (1 / 4) x k 2) ∧
      ∃ k, ∃ m < 2, (Solver.ofTableau T).replies (f.metered (some 1)) x 0 (1 / 4) ⟨0, ()⟩ =
        repliesOf (MeterError Unit) a b (1 / 4) x k m ++
          [.of (stageOf a b (1 / 4) x k m) (k m) (.error (.refused .exhausted))] := by
  intro a b x f
  have hT : Tableau.ofCoefficients "heun" a b =
      .ok ⟨"heun", 2, #v[#v[0, 0], #v[1, 0]], #v[1 / 2, 1 / 2]⟩ := rfl
  obtain ⟨-, hgranted⟩ := (step_of_ofCoefficients (α := ℚ)).2 "heun" a b _ hT
  obtain ⟨k, hok, -⟩ := hgranted (.ofTableau _) rfl f x 0 (1 / 4) ()
  obtain ⟨-, hlimited⟩ := (step_of_ofCoefficients (α := ℚ)).2 "heun" a b _ hT
  obtain ⟨k', -, herror⟩ := hlimited (.ofTableau _) rfl (f.metered (some 1)) x 0 (1 / 4) ⟨0, ()⟩
  exact ⟨_, hT, ⟨k, (hok rfl).1⟩, k', herror _ rfl⟩

end Exact

end GraphTransport
