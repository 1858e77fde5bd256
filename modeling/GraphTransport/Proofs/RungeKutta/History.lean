import GraphTransport.Proofs.Graph.TimeStep
import GraphTransport.Proofs.RungeKutta.Overwriting
import GraphTransport.Proofs.RungeKutta.Run
import GraphTransport.RungeKutta.Methods

namespace GraphTransport

variable {ε σ τ α : Type} {n : Nat}

namespace Solver

variable [Scalar α] {f : RateFunction ε σ α}

section Unwritten

variable {T : Tableau α} {dt : α} {x : Vector α n} {s : Fin T.numStages}
  {rest : List (Fin T.numStages)} {slopes slopes' : Vector (Vector α n) T.numStages}

theorem stageState_eq_of_unwritten (hfirst : ∀ l ∈ rest, s < l)
    (hslopes : ∀ l, l ∉ s :: rest → slopes.get l = slopes'.get l) :
    T.stageState dt x slopes s = T.stageState dt x slopes' s := by
  refine Tableau.stageState_congr fun l hl ↦ hslopes l fun hmem ↦ ?_
  rcases List.mem_cons.1 hmem with rfl | hmem
  · exact hl.false
  · exact (hl.trans (hfirst l hmem)).false

omit [Scalar α] in
theorem get_setIfInBounds_eq_of_unwritten
    (hslopes : ∀ l, l ∉ s :: rest → slopes.get l = slopes'.get l) (rates : Vector α n)
    {l : Fin T.numStages} (hl : l ∉ rest) :
    (slopes.setIfInBounds s rates).get l = (slopes'.setIfInBounds s rates).get l := by
  rcases eq_or_ne s l with rfl | hne
  · rw [get_setIfInBounds_self, get_setIfInBounds_self]
  · rw [get_setIfInBounds_ne _ _ hne, get_setIfInBounds_ne _ _ hne]
    exact hslopes l (List.not_mem_cons_of_ne_of_not_mem hne.symm hl)

end Unwritten

theorem runStages_congr (hf : f.Overwrites) {T : Tableau α} (dt : α) (x : Vector α n)
    {stages : List (Fin T.numStages)} (hstages : stages.Pairwise (· < ·))
    {slopes slopes' : Vector (Vector α n) T.numStages}
    (hslopes : ∀ s, s ∉ stages → slopes.get s = slopes'.get s) (log : Logged ε σ α) :
    (runStages T f.logged dt x stages slopes log).outcome =
        (runStages T f.logged dt x stages slopes' log).outcome ∧
      (runStages T f.logged dt x stages slopes log).memory.requests =
        (runStages T f.logged dt x stages slopes' log).memory.requests ∧
      ((runStages T f.logged dt x stages slopes log).outcome = .ok () →
        (runStages T f.logged dt x stages slopes log).memory =
            (runStages T f.logged dt x stages slopes' log).memory ∧
          (runStages T f.logged dt x stages slopes log).slopes =
            (runStages T f.logged dt x stages slopes' log).slopes) := by
  -- The two vectors of slopes differ only where the stages to come write.
  induction stages generalizing slopes slopes' log with
  | nil =>
    refine ⟨rfl, rfl, fun _ ↦ ⟨rfl, Vector.ext fun s hs ↦ ?_⟩⟩
    exact hslopes ⟨s, hs⟩ List.not_mem_nil
  | cons s rest ih =>
    obtain ⟨hfirst, hrest⟩ := List.pairwise_cons.1 hstages
    have hstate : T.stageState dt x slopes s = T.stageState dt x slopes' s :=
      stageState_eq_of_unwritten hfirst hslopes
    let y := T.stageState dt x slopes s
    have houtcome := hf.outcome_eq y slopes[s] slopes'[s] log.memory
    cases hresult : (f.logged.eval y slopes[s] log).outcome with
    | error e =>
      have hresult' : (f.logged.eval (T.stageState dt x slopes' s) slopes'[s] log).outcome =
          .error e := by
        rw [← hstate, ← hresult]
        exact houtcome.symm
      rw [runStages_cons_of_error rest hresult, runStages_cons_of_error rest hresult', ← hstate]
      refine ⟨rfl, ?_, fun h ↦ by cases h⟩
      exact congrArg (fun outcome ↦ ⟨y.toArray, outcome⟩ :: log.requests) houtcome
    | ok _ =>
      have hresult' : (f.logged.eval (T.stageState dt x slopes' s) slopes'[s] log).outcome =
          .ok () := by
        rw [← hstate, ← hresult]
        exact houtcome.symm
      have hmemory := hf.logged.memory_eq y slopes[s] slopes'[s] log hresult
      have hrates := hf.logged.rates_eq y slopes[s] slopes'[s] log hresult
      rw [runStages_cons_of_ok rest hresult, runStages_cons_of_ok rest hresult', ← hstate]
      dsimp only
      rw [← hmemory, ← hrates, set_eq_setIfInBounds, set_eq_setIfInBounds]
      exact ih hrest (fun l hl ↦ get_setIfInBounds_eq_of_unwritten hslopes _ hl) _

theorem step_congr (hf : f.Overwrites) {solver solver' : Solver α}
    (hsolver : solver.tableau = solver'.tableau) (x : Vector α n) (t dt : α)
    (log : Logged ε σ α) :
    (solver.step f.logged x t dt log).outcome = (solver'.step f.logged x t dt log).outcome ∧
      (solver.step f.logged x t dt log).x = (solver'.step f.logged x t dt log).x ∧
      (solver.step f.logged x t dt log).t = (solver'.step f.logged x t dt log).t ∧
      (solver.step f.logged x t dt log).memory.requests =
        (solver'.step f.logged x t dt log).memory.requests ∧
      ((solver.step f.logged x t dt log).outcome = .ok () →
        (solver.step f.logged x t dt log).memory = (solver'.step f.logged x t dt log).memory) := by
  obtain ⟨T, buffers⟩ := solver
  obtain ⟨_, buffers'⟩ := solver'
  obtain rfl : T = _ := hsolver
  have hunwritten (s : Fin T.numStages) (hs : s ∉ List.finRange T.numStages) :
      (buffers.slopesOfLength n).get s = (buffers'.slopesOfLength n).get s :=
    absurd (List.mem_finRange s) hs
  obtain ⟨houtcome, hrequests, hok⟩ :=
    runStages_congr hf dt x (List.pairwise_lt_finRange _) hunwritten log
  unfold step
  dsimp only
  rw [← houtcome]
  split
  · exact ⟨rfl, rfl, rfl, hrequests, fun h ↦ nomatch h⟩
  · rename_i hstages
    obtain ⟨hmemory, hslopes⟩ := hok hstages
    rw [hslopes]
    exact ⟨rfl, rfl, rfl, hrequests, fun _ ↦ hmemory⟩

structure Run.Alike (run run' : Run σ τ α n) : Prop where
  tableau : run.solver.tableau = run'.solver.tableau
  x : run.x = run'.x
  t : run.t = run'.t
  steps : run.steps = run'.steps
  memory : run.memory = run'.memory
  seen : run.seen = run'.seen

structure Run.ShowsAs (run run' : Run (Logged ε σ α) τ α n) : Prop where
  x : run.x = run'.x
  t : run.t = run'.t
  requests : run.memory.requests = run'.memory.requests
  seen : run.seen = run'.seen

omit [Scalar α] in
theorem Run.Alike.showsAs {run run' : Run (Logged ε σ α) τ α n} (h : run.Alike run') :
    run.ShowsAs run' :=
  ⟨h.x, h.t, congrArg Logged.requests h.memory, h.seen⟩

theorem Run.Alike.of_nextStep (hf : f.Overwrites) {run run' : Run (Logged ε σ α) τ α n}
    (h : run.Alike run') (tFinal dt : α) :
    (run.nextStep f.logged tFinal dt).outcome = (run'.nextStep f.logged tFinal dt).outcome ∧
      (run.afterStep (run.nextStep f.logged tFinal dt)).ShowsAs
        (run'.afterStep (run'.nextStep f.logged tFinal dt)) ∧
      ((run.nextStep f.logged tFinal dt).outcome = .ok () →
        (run.afterStep (run.nextStep f.logged tFinal dt)).Alike
          (run'.afterStep (run'.nextStep f.logged tFinal dt))) := by
  obtain ⟨houtcome, hx, ht, hrequests, hmemory⟩ :=
    step_congr hf h.tableau run.x run.t (min dt (tFinal - run.t)) run.memory
  have htableau := h.tableau
  rw [← run.tableau_nextStep f.logged tFinal dt, ← run'.tableau_nextStep f.logged tFinal dt]
    at htableau
  unfold Run.nextStep at htableau ⊢
  rw [← h.x, ← h.t, ← h.memory] at htableau ⊢
  exact ⟨houtcome, ⟨hx, ht, hrequests, h.seen⟩,
    fun hok ↦ ⟨htableau, hx, ht, h.steps, hmemory hok, h.seen⟩⟩

omit [Scalar α] in
theorem Run.Alike.symm {run run' : Run (Logged ε σ α) τ α n} (h : run.Alike run') :
    run'.Alike run :=
  ⟨h.tableau.symm, h.x.symm, h.t.symm, h.steps.symm, h.memory.symm, h.seen.symm⟩

theorem Run.Alike.unfinished {run run' : Run (Logged ε σ α) τ α n} (h : run.Alike run')
    {tFinal dt : α} (hrun : run.unfinished tFinal dt) : run'.unfinished tFinal dt := by
  rw [Run.unfinished, ← h.t]
  exact hrun

theorem continueRun_congr_of_finished (observe : Observer τ α n) {tFinal dt : α} (budget : Nat)
    {run run' : Run (Logged ε σ α) τ α n} (h : run.Alike run')
    (hrun : ¬ run.unfinished tFinal dt) :
    (continueRun f.logged observe tFinal dt budget run).1 =
        (continueRun f.logged observe tFinal dt budget run').1 ∧
      (continueRun f.logged observe tFinal dt budget run).2.ShowsAs
        (continueRun f.logged observe tFinal dt budget run').2 := by
  have hrun' : ¬ run'.unfinished tFinal dt := mt h.symm.unfinished hrun
  rw [continueRun_of_finished _ hrun, continueRun_of_finished _ hrun', h.steps, h.t]
  exact ⟨rfl, h.showsAs⟩

theorem continueRun_congr (hf : f.Overwrites) (observe : Observer τ α n) (tFinal dt : α)
    (budget : Nat) {run run' : Run (Logged ε σ α) τ α n} (h : run.Alike run') :
    (continueRun f.logged observe tFinal dt budget run).1 =
        (continueRun f.logged observe tFinal dt budget run').1 ∧
      (continueRun f.logged observe tFinal dt budget run).2.ShowsAs
        (continueRun f.logged observe tFinal dt budget run').2 := by
  induction budget generalizing run run' with
  | zero =>
    by_cases hrun : run.unfinished tFinal dt
    · rw [continueRun_zero hrun, continueRun_zero (h.unfinished hrun)]
      exact ⟨rfl, h.showsAs⟩
    · exact continueRun_congr_of_finished observe 0 h hrun
  | succ budget ih =>
    by_cases hrun : run.unfinished tFinal dt
    · have hrun' := h.unfinished hrun
      obtain ⟨houtcome, hshows, hok⟩ := h.of_nextStep hf tFinal dt
      cases hstep : (run.nextStep f.logged tFinal dt).outcome with
      | error e =>
        rw [continueRun_of_error budget hrun hstep,
          continueRun_of_error budget hrun' (houtcome ▸ hstep)]
        exact ⟨rfl, hshows⟩
      | ok _ =>
        have hnext := hok hstep
        rw [continueRun_of_ok budget hrun hstep,
          continueRun_of_ok budget hrun' (houtcome ▸ hstep)]
        dsimp only
        rw [← hnext.t, ← hnext.x, ← hnext.seen, ← h.steps]
        split
        · exact ⟨rfl, rfl, rfl, hshows.requests, rfl⟩
        · exact ih ⟨hnext.tableau, rfl, rfl, rfl, hnext.memory, rfl⟩
    · exact continueRun_congr_of_finished observe (budget + 1) h hrun

theorem integrate_congr (hf : f.Overwrites) {solver solver' : Solver α}
    (hsolver : solver.tableau = solver'.tableau) (observe : Observer τ α n) (budget : Nat)
    (x : Vector α n) (tFinal dt : α) (log : Logged ε σ α) (seen : τ) :
    (solver.integrate budget f.logged observe x tFinal dt log seen).1 =
        (solver'.integrate budget f.logged observe x tFinal dt log seen).1 ∧
      (solver.integrate budget f.logged observe x tFinal dt log seen).2.ShowsAs
        (solver'.integrate budget f.logged observe x tFinal dt log seen).2 := by
  have halike : Run.Alike (⟨solver, x, 0, 0, log, seen⟩ : Run (Logged ε σ α) τ α n)
      ⟨solver', x, 0, 0, log, seen⟩ := ⟨hsolver, rfl, rfl, rfl, rfl, rfl⟩
  by_cases hdt : 0 < dt
  · simp only [integrate, if_pos hdt]
    exact continueRun_congr hf observe tFinal dt budget halike
  · simp only [integrate, if_neg hdt]
    exact ⟨trivial, halike.showsAs⟩

end Solver

inductive Call (α : Type) : Type 1 where
  | step {ε σ : Type} {n : Nat} (f : RateFunction ε σ α) (hf : f.Overwrites) (x : Vector α n)
    (t dt : α) (memory : σ)
  | integrate {ε σ τ : Type} {n : Nat} (f : RateFunction ε σ α) (hf : f.Overwrites)
    (observe : Observer τ α n) (budget : Nat) (x : Vector α n) (tFinal dt : α) (memory : σ)
    (seen : τ)

/-- What a call shows: its outcome, the state and the time it comes to, the evaluations that it asks
for, the latest one first, and what the observer keeps. -/
structure Answer (ε τ β α : Type) (n : Nat) where
  outcome : Except (Fault ε) β
  x : Vector α n
  t : α
  requests : List (Request ε α)
  seen : τ

namespace Call

def Shows : Call α → Type
  | @step _ ε _ n _ _ _ _ _ _ => Answer ε Unit Unit α n
  | @integrate _ ε _ τ n _ _ _ _ _ _ _ _ _ => Answer ε τ (IntegrationReport α) α n

variable [Scalar α]

def run (solver : Solver α) : (call : Call α) → call.Shows × Solver α
  | step f _ x t dt memory =>
    let stepped := solver.step f.logged x t dt ⟨memory, []⟩
    (⟨stepped.outcome, stepped.x, stepped.t, stepped.memory.requests, ()⟩, stepped.solver)
  | integrate f _ observe budget x tFinal dt memory seen =>
    let (outcome, final) := solver.integrate budget f.logged observe x tFinal dt ⟨memory, []⟩ seen
    (⟨outcome, final.x, final.t, final.memory.requests, final.seen⟩, final.solver)

theorem run_congr {solver solver' : Solver α} (h : solver.tableau = solver'.tableau)
    (call : Call α) : (call.run solver).1 = (call.run solver').1 := by
  cases call with
  | step f hf x t dt memory =>
    obtain ⟨houtcome, hx, ht, hrequests, -⟩ := Solver.step_congr hf h x t dt ⟨memory, []⟩
    simp only [run, houtcome, hx, ht, hrequests]
    rfl
  | integrate f hf observe budget x tFinal dt memory seen =>
    obtain ⟨houtcome, hrun⟩ :=
      Solver.integrate_congr hf h observe budget x tFinal dt ⟨memory, []⟩ seen
    simp only [run, houtcome, hrun.x, hrun.t, hrun.requests, hrun.seen]
    rfl

theorem tableau_run (solver : Solver α) (call : Call α) :
    (call.run solver).2.tableau = solver.tableau := by
  cases call with
  | step f hf x t dt memory => exact solver.tableau_step f.logged x t dt ⟨memory, []⟩
  | integrate f hf observe budget x tFinal dt memory seen =>
    exact solver.tableau_integrate f.logged observe budget x tFinal dt ⟨memory, []⟩ seen

end Call

namespace Solver

variable [Scalar α]

def answers (solver : Solver α) : List (Call α) → List ((call : Call α) × call.Shows)
  | [] => []
  | call :: calls => ⟨call, (call.run solver).1⟩ :: answers (call.run solver).2 calls

/-- Whatever a solver has been used for, with states of any length and right-hand sides that failed
or not, each call is answered as by a solver that has not been used. If an evaluation of a step
fails, the step fails with the same error, and the state and the time are those before it. -/
theorem answers_eq_unused (solver : Solver α) :
    (∀ calls : List (Call α), solver.answers calls =
      calls.map fun call ↦ ⟨call, (call.run (.ofTableau solver.tableau)).1⟩) ∧
    ∀ {ε σ : Type} {n : Nat} (f : RateFunction ε σ α) (x : Vector α n) (t dt : α) (memory : σ),
      ∀ request ∈ solver.requests f x t dt memory, ∀ e, request.outcome = .error e →
        (solver.step f x t dt memory).outcome = .error e ∧
          (solver.step f x t dt memory).x = x ∧ (solver.step f x t dt memory).t = t := by
  constructor
  · intro calls
    induction calls generalizing solver with
    | nil => rfl
    | cons call calls ih =>
      have htableau : solver.tableau = (ofTableau solver.tableau).tableau := rfl
      have hanswer := call.run_congr htableau
      rw [answers, ih, call.tableau_run, List.map_cons, hanswer]
  · intro ε σ n f x t dt memory request hrequest e he
    have hfails : (solver.step f x t dt memory).outcome = .error e :=
      step_eq_error_iff.2 ⟨request, hrequest, he⟩
    exact ⟨hfails, step_of_error hfails⟩

theorem answers_eq_unused_heun : ∃ (f : RateFunction (MeterError Empty) (Metered Unit) ℚ)
    (hf : f.Overwrites) (g : RateFunction EvaluationError (Array ℚ) ℚ) (hg : g.Overwrites),
    g = .ofEvolution ⟨.mcl, .triangle, 1, .serial, .word64⟩ ∧
    (∃ request ∈ (ofTableau .heun).requests f #v[1] 0 1 ⟨0, ()⟩,
      request.outcome = .error (.refused .exhausted)) ∧
    ((ofTableau .heun).step f #v[1] 0 1 ⟨0, ()⟩).outcome = .error (.refused .exhausted) ∧
    ((ofTableau .heun).step f #v[1] 0 1 ⟨0, ()⟩).x = #v[1] ∧
    ((ofTableau .heun).step f #v[1] 0 1 ⟨0, ()⟩).t = 0 ∧
    (ofTableau .heun).answers [.step f hf #v[1] 0 1 ⟨0, ()⟩, .step g hg #v[2, 3] 0 1 #[],
        .integrate g hg recordCalls 5 #v[1, 2, 3] 4 1 #[] []] =
      [.step f hf #v[1] 0 1 ⟨0, ()⟩, .step g hg #v[2, 3] 0 1 #[],
        .integrate g hg recordCalls 5 #v[1, 2, 3] 4 1 #[] []].map
          fun call ↦ ⟨call, (call.run (.ofTableau .heun)).1⟩ := by
  let f : RateFunction (MeterError Empty) (Metered Unit) ℚ := (RateFunction.linear 2).metered (some 1)
  have hf : f.Overwrites := (RateFunction.Overwrites.ofTotal _).metered _
  let e : Evolution ℚ := ⟨.mcl, .triangle, 1, .serial, .word64⟩
  have hg : (RateFunction.ofEvolution e).Overwrites :=
    Evolution.overwrites
      (GraphOperator.accepted_of_withLumpedMass GraphOperator.withLumpedMass_triangle) rfl
  obtain ⟨hanswers, hfails⟩ := answers_eq_unused (ofTableau (.heun : Tableau ℚ))
  have hrequest : ∃ request ∈ (ofTableau .heun).requests f #v[1] 0 1 ⟨0, ()⟩,
      request.outcome = .error (.refused .exhausted) := ⟨_, List.mem_cons_self, rfl⟩
  obtain ⟨request, hmem, he⟩ := hrequest
  obtain ⟨houtcome, hx, ht⟩ := hfails f #v[1] 0 1 ⟨0, ()⟩ request hmem _ he
  exact ⟨f, hf, _, hg, rfl, ⟨request, hmem, he⟩, houtcome, hx, ht, hanswers _⟩

end Solver

end GraphTransport
