import GraphTransport.Proofs.Traversal
import GraphTransport.Evolution.Schedule

namespace GraphTransport

variable {α : Type} {k n : Nat}

def writeInOrder (value : Nat → Except Violation α) (base : Nat) (order : List Nat)
    (out : Vector α k) : Except Violation (Vector α k) :=
  order.foldlM (fun out i ↦ return out.setIfInBounds (base + i) (← value i)) out

theorem writeInOrder_cons (value : Nat → Except Violation α) (base i : Nat) (order : List Nat)
    (out : Vector α k) : writeInOrder value base (i :: order) out =
      value i >>= fun v ↦ writeInOrder value base order (out.setIfInBounds (base + i) v) := by
  unfold writeInOrder
  rw [List.foldlM_cons, bind_assoc]
  rfl

theorem writeInOrder_append (value : Nat → Except Violation α) (base : Nat)
    (order order' : List Nat) (out : Vector α k) : writeInOrder value base (order ++ order') out =
      writeInOrder value base order out >>= writeInOrder value base order' :=
  List.foldlM_append

theorem writeInOrder_eq {value : Nat → Except Violation α} {v : Nat → α} {order : List Nat}
    (h : ∀ i ∈ order, value i = .ok (v i)) (base : Nat) (out : Vector α k) :
    ∃ out', writeInOrder value base order out = .ok out' ∧ ∀ p (hp : p < k),
      out'[p] = if base ≤ p ∧ p - base ∈ order then v (p - base) else out[p] := by
  induction order generalizing out with
  | nil => exact ⟨out, rfl, by simp⟩
  | cons i order ih =>
    obtain ⟨hi, horder⟩ := List.forall_mem_cons.1 h
    obtain ⟨out', hout', hvalues⟩ := ih horder (out.setIfInBounds (base + i) (v i))
    refine ⟨out', by rw [writeInOrder_cons, hi, ok_bind, hout'], ?_⟩
    intro p hp
    rw [hvalues p hp, Vector.getElem_setIfInBounds]
    by_cases hmem : base ≤ p ∧ p - base ∈ order
    · rw [if_pos hmem, if_pos ⟨hmem.1, List.mem_cons_of_mem i hmem.2⟩]
    · rw [if_neg hmem]
      by_cases hip : base + i = p
      · subst hip
        simp
      · have hp' : ¬ (base ≤ p ∧ p - base ∈ i :: order) := by
          rintro ⟨hle, hcons⟩
          rcases List.mem_cons.1 hcons with h | h
          · omega
          · exact hmem ⟨hle, h⟩
        rw [if_neg hip, if_neg hp']

theorem writeRows_eq_writeInOrder (value : Nat → Except Violation α) (base : Nat)
    (rows : List Nat) (out : Vector α k) :
    (rows.mapM (fun i ↦ do return (i, ← value i) : Nat → Except Violation (Nat × α)) >>=
      fun results ↦ Except.ok (writeRows base out results)) = writeInOrder value base rows out := by
  induction rows generalizing out with
  | nil => rfl
  | cons i rows ih =>
    rw [writeInOrder_cons, List.mapM_cons]
    cases hv : value i with
    | error violation => rfl
    | ok v =>
      refine Eq.trans ?_ (ih (out.setIfInBounds (base + i) v))
      cases rows.mapM (fun i ↦ do return (i, ← value i) : Nat → Except Violation (Nat × α)) <;> rfl

theorem Schedule.run_eq_writeInOrder (schedule : Schedule) (value : Nat → Except Violation α)
    (base : Nat) (out : Vector α k) :
    schedule.run value base out = writeInOrder value base schedule.flatten out := by
  rw [run, runTasks_eq_map, List.foldlM_map]
  induction schedule generalizing out with
  | nil => rfl
  | cons rows schedule ih =>
    rw [List.foldlM_cons, List.flatten_cons, writeInOrder_append, ← writeRows_eq_writeInOrder]
    refine bind_congr fun out' ↦ ?_
    exact ih out'

theorem Execution.flatten_schedule (execution : Execution) (n : Nat) :
    (execution.schedule n).flatten = List.range n := by
  cases execution with
  | serial => simp [schedule]
  | parallel =>
    have htasks : 0 < max 1 (n / rowsPerTask) := by omega
    have hmono : Monotone fun t ↦ t * n / max 1 (n / rowsPerTask) :=
      fun s t hst ↦ Nat.div_le_div_right (Nat.mul_le_mul_right n hst)
    have hjoined := flatMap_range'_sub hmono (by simp) (max 1 (n / rowsPerTask))
    rw [schedule, ← List.flatMap_def]
    simpa only [Nat.mul_div_cancel_left n htasks] using hjoined

/-- In this order the rows are taken when all tasks run at the same time: whichever task moves
next takes its first row that is left. -/
inductive Interleaving : Schedule → List Nat → Prop
  | done {tasks : Schedule} : tasks.flatten = [] → Interleaving tasks []
  | next {before after : Schedule} {i : Nat} {rows order : List Nat} :
      Interleaving (before ++ rows :: after) order →
      Interleaving (before ++ (i :: rows) :: after) (i :: order)

theorem Interleaving.perm {tasks : Schedule} {order : List Nat} (h : Interleaving tasks order) :
    order.Perm tasks.flatten := by
  induction h with
  | done h => rw [h]
  | @next before after i rows order _ ih =>
    refine (ih.cons i).trans ?_
    simp only [List.flatten_append, List.flatten_cons, List.cons_append]
    exact List.perm_middle.symm

/-- In this order tasks that share the rows below `n` among them may take the rows. -/
def ParallelOrder (n : Nat) (order : List Nat) : Prop :=
  ∃ tasks : Schedule, tasks.flatten.Perm (List.range n) ∧ Interleaving tasks order

theorem ParallelOrder.mem_iff {order : List Nat} (h : ParallelOrder n order) {i : Nat} :
    i ∈ order ↔ i < n := by
  obtain ⟨tasks, htasks, horder⟩ := h
  rw [(horder.perm.trans htasks).mem_iff, List.mem_range]

end GraphTransport
