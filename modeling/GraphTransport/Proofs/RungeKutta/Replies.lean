import GraphTransport.Proofs.RungeKutta.Requests

namespace GraphTransport

variable {ε σ α : Type} {n : Nat}

structure Reply (ε α : Type) extends Request ε α where
  rates : Array α

def Reply.of (x rates : Vector α n) (outcome : Except (Fault ε) Unit) : Reply ε α :=
  ⟨⟨x.toArray, outcome⟩, rates.toArray⟩

structure Recorded (ε σ α : Type) where
  memory : σ
  replies : List (Reply ε α)

namespace RateFunction

def reply (f : RateFunction ε σ α) (x y : Vector α n) (memory : σ) : Reply ε α :=
  .of x (f.eval x y memory).rates (f.eval x y memory).outcome

def recorded (f : RateFunction ε σ α) : RateFunction ε (Recorded ε σ α) α where
  stateSize := f.stateSize
  eval x y record :=
    let result := f.eval x y record.memory
    ⟨result.outcome, result.rates, ⟨result.memory, f.reply x y record.memory :: record.replies⟩⟩

end RateFunction

variable [Scalar α]

namespace Solver

def replies (solver : Solver α) (f : RateFunction ε σ α) (x : Vector α n) (t dt : α)
    (memory : σ) : List (Reply ε α) :=
  (solver.step f.recorded x t dt ⟨memory, []⟩).memory.replies.reverse

variable {T : Tableau α} {f : RateFunction ε σ α} {dt : α} {x : Vector α n}

theorem runStages_recorded (T : Tableau α) (f : RateFunction ε σ α) (dt : α) (x : Vector α n)
    (stages : List (Fin T.numStages)) (slopes : Vector (Vector α n) T.numStages)
    (record : Recorded ε σ α) :
    (runStages T f.recorded dt x stages slopes record).outcome =
        (runStages T f dt x stages slopes record.memory).outcome ∧
      (runStages T f.recorded dt x stages slopes record).slopes =
        (runStages T f dt x stages slopes record.memory).slopes := by
  induction stages generalizing slopes record with
  | nil => exact ⟨rfl, rfl⟩
  | cons s rest ih =>
    let y := T.stageState dt x slopes s
    cases hresult : (f.eval y slopes[s] record.memory).outcome with
    | error e =>
      have hrecorded : (f.recorded.eval y slopes[s] record).outcome = .error e := hresult
      rw [runStages_cons_of_error rest hresult, runStages_cons_of_error rest hrecorded]
      exact ⟨rfl, rfl⟩
    | ok _ =>
      have hrecorded : (f.recorded.eval y slopes[s] record).outcome = .ok () := hresult
      rw [runStages_cons_of_ok rest hresult, runStages_cons_of_ok rest hrecorded]
      exact ih _ _

theorem get_slopes_runStages {stages : List (Fin T.numStages)} {s : Fin T.numStages}
    (hs : s ∉ stages) (slopes : Vector (Vector α n) T.numStages) (memory : σ) :
    (runStages T f dt x stages slopes memory).slopes.get s = slopes.get s := by
  induction stages generalizing slopes memory with
  | nil => rfl
  | cons l rest ih =>
    obtain ⟨hne, hs⟩ := not_or.1 (mt List.mem_cons.2 hs)
    let y := T.stageState dt x slopes l
    have hwritten : (slopes.set l (f.eval y slopes[l] memory).rates).get s = slopes.get s := by
      rw [set_eq_setIfInBounds]
      exact get_setIfInBounds_ne _ _ (Ne.symm hne)
    cases hresult : (f.eval y slopes[l] memory).outcome with
    | error e =>
      rw [runStages_cons_of_error rest hresult]
      exact hwritten
    | ok _ =>
      rw [runStages_cons_of_ok rest hresult]
      exact (ih hs _ _).trans hwritten

section Head

variable {s : Fin T.numStages} {rest : List (Fin T.numStages)}

theorem get_slopes_runStages_head (hs : s ∉ rest) (slopes : Vector (Vector α n) T.numStages)
    (memory : σ) : (runStages T f dt x (s :: rest) slopes memory).slopes.get s =
      (f.eval (T.stageState dt x slopes s) (slopes.get s) memory).rates := by
  let y := T.stageState dt x slopes s
  have hwritten : (slopes.set s (f.eval y (slopes.get s) memory).rates).get s =
      (f.eval y (slopes.get s) memory).rates := by
    rw [set_eq_setIfInBounds]
    exact get_setIfInBounds_self _ _ _
  cases hresult : (f.eval y (slopes.get s) memory).outcome with
  | error e =>
    rw [runStages_cons_of_error rest hresult]
    exact hwritten
  | ok _ =>
    rw [runStages_cons_of_ok rest hresult]
    exact (get_slopes_runStages hs _ _).trans hwritten

theorem stageState_runStages_head (hstages : (s :: rest).Pairwise (· < ·))
    (slopes : Vector (Vector α n) T.numStages) (memory : σ) :
    T.stageState dt x (runStages T f dt x (s :: rest) slopes memory).slopes s =
      T.stageState dt x slopes s := by
  apply Tableau.stageState_congr
  intro l hl
  apply get_slopes_runStages
  intro hmem
  rcases List.mem_cons.1 hmem with rfl | hmem
  · exact hl.false
  · exact (hl.trans (List.rel_of_pairwise_cons hstages hmem)).false

end Head

/-- The reply that stage `s` gets if it ends with the given outcome and the slopes are those at the
end of the step. -/
def stageReply (T : Tableau α) (dt : α) (x : Vector α n)
    (slopes : Vector (Vector α n) T.numStages) (outcome : Except (Fault ε) Unit)
    (s : Fin T.numStages) : Reply ε α :=
  .of (T.stageState dt x slopes s) (slopes.get s) outcome

theorem reply_head {s : Fin T.numStages} {rest : List (Fin T.numStages)}
    (hstages : (s :: rest).Pairwise (· < ·)) (slopes : Vector (Vector α n) T.numStages)
    (memory : σ) : f.reply (T.stageState dt x slopes s) (slopes.get s) memory =
      stageReply T dt x (runStages T f dt x (s :: rest) slopes memory).slopes
        (f.eval (T.stageState dt x slopes s) (slopes.get s) memory).outcome s := by
  have hs : s ∉ rest := fun h ↦ (List.rel_of_pairwise_cons hstages h).false
  rw [stageReply, stageState_runStages_head hstages, get_slopes_runStages_head hs,
    RateFunction.reply]

structure Answered (T : Tableau α) (dt : α) (x : Vector α n) (stages : List (Fin T.numStages))
    (outcome : Except (Fault ε) Unit) (slopes : Vector (Vector α n) T.numStages)
    (replies : List (Reply ε α)) : Prop where
  of_ok : outcome = .ok () → replies = stages.map (stageReply T dt x slopes (.ok ()))
  of_error : ∀ e, outcome = .error e → ∃ before s after, stages = before ++ s :: after ∧
    replies = before.map (stageReply T dt x slopes (.ok ())) ++
      [stageReply T dt x slopes (.error e) s]

theorem answered_runStages (T : Tableau α) (f : RateFunction ε σ α) (dt : α) (x : Vector α n)
    {stages : List (Fin T.numStages)} (hstages : stages.Pairwise (· < ·))
    (slopes : Vector (Vector α n) T.numStages) (record : Recorded ε σ α) :
    ∃ replies, (runStages T f.recorded dt x stages slopes record).memory.replies.reverse =
        record.replies.reverse ++ replies ∧
      Answered T dt x stages (runStages T f.recorded dt x stages slopes record).outcome
        (runStages T f.recorded dt x stages slopes record).slopes replies := by
  induction stages generalizing slopes record with
  | nil => exact ⟨[], (List.append_nil _).symm, fun _ ↦ rfl, fun e h ↦ nomatch h⟩
  | cons s rest ih =>
    let y := T.stageState dt x slopes s
    -- The later stages leave alone what this one has read and written, so the slopes at the end
    -- already tell its reply.
    have hreply : f.reply y (slopes.get s) record.memory = _ :=
      reply_head (f := f.recorded) hstages slopes record
    cases hresult : (f.recorded.eval y (slopes.get s) record).outcome with
    | error e =>
      rw [hresult, runStages_cons_of_error rest hresult] at hreply
      rw [runStages_cons_of_error rest hresult]
      refine ⟨[f.reply y (slopes.get s) record.memory], List.reverse_cons, ⟨?_, ?_⟩⟩
      · intro hok
        cases hok
      · intro e' he
        obtain rfl := Except.error.inj he
        exact ⟨[], s, rest, rfl, congrArg (fun r ↦ [r]) hreply⟩
    | ok _ =>
      rw [hresult, runStages_cons_of_ok rest hresult] at hreply
      rw [runStages_cons_of_ok rest hresult]
      obtain ⟨replies, hreplies, hanswered⟩ := ih hstages.of_cons
        (slopes.set s (f.recorded.eval y (slopes.get s) record).rates)
        (f.recorded.eval y (slopes.get s) record).memory
      refine ⟨f.reply y (slopes.get s) record.memory :: replies, ?_, ⟨?_, ?_⟩⟩
      · refine hreplies.trans ?_
        simp [RateFunction.recorded, y]
      · intro hok
        rw [hanswered.of_ok hok, List.map_cons]
        exact congrArg (· :: _) hreply
      · intro e he
        obtain ⟨before, l, after, hrest, hfailed⟩ := hanswered.of_error e he
        refine ⟨s :: before, l, after, congrArg (s :: ·) hrest, ?_⟩
        rw [hfailed, List.map_cons, List.cons_append]
        exact congrArg (· :: _) hreply

theorem exists_eval_of_runStages_ok {stages : List (Fin T.numStages)}
    (hstages : stages.Pairwise (· < ·)) {slopes : Vector (Vector α n) T.numStages} {memory : σ}
    (hok : (runStages T f dt x stages slopes memory).outcome = .ok ()) {s : Fin T.numStages}
    (hs : s ∈ stages) : ∃ y memory', (runStages T f dt x stages slopes memory).slopes.get s =
      (f.eval (T.stageState dt x (runStages T f dt x stages slopes memory).slopes s) y
        memory').rates := by
  induction stages generalizing slopes memory with
  | nil => exact absurd hs List.not_mem_nil
  | cons l rest ih =>
    rcases List.mem_cons.1 hs with rfl | hrest
    · refine ⟨slopes.get s, memory, ?_⟩
      have hlater : s ∉ rest := fun h ↦ (List.rel_of_pairwise_cons hstages h).false
      rw [stageState_runStages_head hstages, get_slopes_runStages_head hlater]
    · cases hresult : (f.eval (T.stageState dt x slopes l) (slopes.get l) memory).outcome with
      | error e =>
        rw [runStages_cons_of_error rest hresult] at hok
        cases hok
      | ok _ =>
        rw [runStages_cons_of_ok rest hresult] at hok ⊢
        exact ih hstages.of_cons hok hrest

theorem step_x_of_ok {solver : Solver α} {t : α} {memory : σ}
    (h : (solver.step f x t dt memory).outcome = .ok ()) :
    (solver.step f x t dt memory).x = solver.tableau.advance dt x
      (runStages solver.tableau f dt x (List.finRange _) (solver.buffers.slopesOfLength n)
        memory).slopes := by
  unfold step at h ⊢
  dsimp only at h ⊢
  split at h
  · cases h
  · rfl

/-- The slopes of a step make the states at which the stages ask and, if none of them fails, the
state after the step. -/
theorem exists_slopes_of_step (solver : Solver α) (f : RateFunction ε σ α) (x : Vector α n)
    (t dt : α) (memory : σ) : ∃ slopes : Vector (Vector α n) solver.tableau.numStages,
      Answered solver.tableau dt x (List.finRange _) (solver.step f x t dt memory).outcome slopes
        (solver.replies f x t dt memory) ∧
      ((solver.step f x t dt memory).outcome = .ok () →
        (solver.step f x t dt memory).x = solver.tableau.advance dt x slopes ∧
        ∀ s, ∃ y memory', slopes.get s =
          (f.eval (solver.tableau.stageState dt x slopes s) y memory').rates) := by
  have hascending : (List.finRange solver.tableau.numStages).Pairwise (· < ·) :=
    List.pairwise_lt_finRange _
  let buffers := solver.buffers.slopesOfLength n
  obtain ⟨houtcome, hslopes⟩ :=
    runStages_recorded solver.tableau f dt x (List.finRange _) buffers ⟨memory, []⟩
  obtain ⟨replies, hreplies, hanswered⟩ :=
    answered_runStages solver.tableau f dt x hascending buffers ⟨memory, []⟩
  rw [houtcome, hslopes] at hanswered
  refine ⟨_, ?_, fun hok ↦ ⟨step_x_of_ok hok, fun s ↦ ?_⟩⟩
  · rw [Solver.replies, step_memory, hreplies, step_outcome]
    exact hanswered
  · rw [step_outcome] at hok
    exact exists_eval_of_runStages_ok hascending hok (List.mem_finRange s)

end Solver

end GraphTransport
