import TimeStepping.Proofs.Implicit.Surfacing
import TimeStepping.Proofs.Watching

/-!
# The fate of a failed evaluation

An evaluation that fails is the last one of its step, and the step fails with it.
What the failure has become by then is said by `implicitFate` and `explicitFate`:
a fatal one has passed every level unchanged.
-/

namespace TimeStepping

variable {σ τ α β : Type}

/-- What an implicit step makes of a failed evaluation, after so many updates of
its iterate. -/
def implicitFate [Scalar α] (step : Nat) (time dt : α) (updates : Nat) : Failure α → Failure α
  | .timeStepTooSmall number size minimum => .timeStepTooSmall number size minimum
  | .configuration cause => .configuration cause
  | cause => .timeStep step dt (.unevaluated updates (.residual step (time + dt) cause))

/-- What an explicit step makes of a failed evaluation. -/
def explicitFate (step : Nat) (_time dt : α) (_updates : Nat) (cause : Failure α) : Failure α :=
  cause.surfaced step dt

/-! ## Lists of evaluations -/

def jacobians (evaluations : List (Evaluated α)) : Nat :=
  evaluations.countP (·.evaluation = .jacobian)

theorem jacobians_append (first second : List (Evaluated α)) :
    jacobians (first ++ second) = jacobians first + jacobians second :=
  List.countP_append

def Unfailing (evaluations : List (Evaluated α)) : Prop :=
  ∀ evaluation ∈ evaluations, ∀ cause, evaluation.ending ≠ .failed cause

/-- An evaluation that failed is the last one, and the work ends in what `fate`
makes of the number of Jacobians evaluated before it and of its failure. -/
def FailsWith (fate : Nat → Failure α → Failure α) (evaluations : List (Evaluated α))
    (ending : Ending α) : Prop :=
  ∀ before evaluation after cause, evaluations = before ++ evaluation :: after →
    evaluation.ending = .failed cause →
      after = [] ∧ ending = .failed (fate (jacobians before) cause)

namespace FailsWith

variable {fate fate' : Nat → Failure α → Failure α} {evaluations first second : List (Evaluated α)}
  {evaluation : Evaluated α} {ending ending' : Ending α}

theorem of_unfailing (h : Unfailing evaluations) : FailsWith fate evaluations ending := by
  rintro before evaluation after cause rfl hcause
  exact absurd hcause (h evaluation (by simp) cause)

theorem nil : FailsWith fate [] ending :=
  of_unfailing nofun

theorem single (h : ∀ cause, evaluation.ending = .failed cause → ending = .failed (fate 0 cause)) :
    FailsWith fate [evaluation] ending := by
  intro before last after cause heq hcause
  obtain ⟨rfl, hlast⟩ | ⟨rest, hrest, hafter⟩ := List.append_eq_cons_iff.1 heq.symm
  · obtain ⟨rfl, rfl⟩ := List.cons.inj hlast
    exact ⟨rfl, h cause hcause⟩
  · simp at hafter

/-- Evaluations that did not fail may come before; the Jacobians among them count. -/
theorem append (hfirst : Unfailing first) (h : FailsWith fate' second ending)
    (hfate : ∀ n cause, fate' n cause = fate (jacobians first + n) cause) :
    FailsWith fate (first ++ second) ending := by
  intro before evaluation after cause heq hcause
  have hsplit : ∃ rest, before = first ++ rest ∧ second = rest ++ evaluation :: after := by
    obtain hsplit | ⟨rest, hrest, hsecond⟩ := List.append_eq_append_iff.1 heq
    · exact hsplit
    · cases rest with
      | nil => exact ⟨[], by simpa using hrest.symm, hsecond.symm⟩
      | cons last rest =>
          obtain ⟨rfl, -⟩ := List.cons.inj hsecond
          exact absurd hcause (hfirst evaluation (by simp [hrest]) cause)
  obtain ⟨rest, rfl, hsecond⟩ := hsplit
  obtain ⟨hafter, hending⟩ := h rest evaluation after cause hsecond hcause
  exact ⟨hafter, by rw [hending, hfate, jacobians_append]⟩

theorem map (h : FailsWith fate' evaluations ending)
    (hfate : ∀ n cause, ending = .failed (fate' n cause) → ending' = .failed (fate n cause)) :
    FailsWith fate evaluations ending' := by
  intro before evaluation after cause heq hcause
  obtain ⟨hafter, hending⟩ := h before evaluation after cause heq hcause
  exact ⟨hafter, hfate _ _ hending⟩

end FailsWith

/-! ## Evaluating the equation of a step -/

/-- At most one evaluation is made, of the given kind.  The work is done only with
it, and if it fails, so does the work, told at which step. -/
def Reported (kind : Evaluation) (step : Nat) (time : α)
    (evaluations : List (Evaluated α)) (ending : Ending α) : Prop :=
  (evaluations = [] ∧ ending ≠ .done) ∨
    ∃ own, evaluations = [⟨kind, own⟩] ∧
      ∀ cause, own = .failed cause → ending = .failed (cause.asResidualFailure step time)

namespace Reported

variable {step : Nat} {time : α} {evaluations : List (Evaluated α)} {ending ending' : Ending α}
  {fate : Nat → Failure α → Failure α} {kind : Evaluation}

theorem failsWith (h : Reported kind step time evaluations ending)
    (hfate : ∀ cause, ending = .failed (cause.asResidualFailure step time) →
      ending' = .failed (fate 0 cause)) :
    FailsWith fate evaluations ending' := by
  obtain ⟨rfl, -⟩ | ⟨own, rfl, hown⟩ := h
  · exact .nil
  · exact .single fun cause hcause => hfate cause (hown cause hcause)

theorem of_done (h : Reported kind step time evaluations .done) :
    Unfailing evaluations ∧ ∃ own, evaluations = [⟨kind, own⟩] := by
  obtain ⟨-, hdone⟩ | ⟨own, rfl, hown⟩ := h
  · exact absurd rfl hdone
  · refine ⟨fun evaluation hmem cause hcause => ?_, own, rfl⟩
    obtain rfl := List.mem_singleton.1 hmem
    cases hown cause hcause

end Reported

/-- Equations of a step whose evaluations are logged. -/
structure Reports (system : AlgebraicSystem (Watched σ α) α) (step : Nat) (time : α) : Prop where
  residual (state buffer : Vec α) :
    Logs (system.residual state buffer) fun evaluations outcome =>
      Reported .value step time evaluations outcome.ending
  jacobian (state : Vec α) (buffer : Mat α) :
    Logs (system.jacobian state buffer) fun evaluations outcome =>
      Reported .jacobian step time evaluations outcome.ending

namespace StepEquation

end StepEquation

namespace Newton

/-- What a solve makes of a failed evaluation of the equation of a step. -/
def fate (step : Nat) (time : α) (updates : Nat) (cause : Failure α) : Failure α :=
  (cause.asResidualFailure step time).asSolveFailure updates

theorem failsWith_interrupted {kind : Evaluation} {step : Nat} {time : α}
    {evaluations : List (Evaluated α)} {ending : Ending α}
    (h : Reported kind step time evaluations ending) (state : Vec α) (iteration : Nat) :
    FailsWith (fun n => fate step time (iteration + n)) (evaluations ++ [])
      (Report.interrupted state iteration ending).ending := by
  rw [List.append_nil]
  refine h.failsWith ?_
  rintro cause rfl
  rfl

variable [Scalar α] [Journal α σ] (settings : Settings α) (linear : LinearSolver α)

/-- The updates of a solve are counted by the Jacobians it has evaluated, those
before the iteration `iteration` not included. -/
theorem iterate_logs {system : AlgebraicSystem (Watched σ α) α} {step : Nat} {time : α}
    (h : Reports system step time) (remaining iteration : Nat) (initial : α)
    (state residual : Vec α) (jacobian : Mat α) :
    Logs (iterate settings linear system remaining iteration initial state residual jacobian)
      fun evaluations report =>
        FailsWith (fun n => fate step time (iteration + n)) evaluations report.ending := by
  induction remaining generalizing iteration initial state residual jacobian with
  | zero => exact .pure .nil
  | succ remaining ih =>
      refine (h.residual state residual).bind ?_
      rintro ⟨value, ending⟩ evaluations hevaluated
      cases ending with
      | failed cause => exact .pure (failsWith_interrupted hevaluated _ _)
      | fault cause => exact .pure (failsWith_interrupted hevaluated _ _)
      | done =>
          obtain ⟨hresidual, own, rfl⟩ := hevaluated.of_done
          have hcount : ∀ n cause, fate step time (iteration + n) cause =
              fate step time (iteration + (jacobians [⟨.value, own⟩] + n)) cause := fun n cause =>
            congrArg (fun n => fate step time (iteration + n) cause) (Nat.zero_add n).symm
          refine Logs.weaken ?_ fun more report hmore => FailsWith.append hresidual hmore hcount
          refine .ite (.pure .nil) (.silently (.note _) fun _ => .ite (.pure .nil) ?_)
          refine (h.jacobian state jacobian).bind ?_
          rintro ⟨matrix, ending⟩ evaluations hevaluated
          cases ending with
          | failed cause => exact .pure (failsWith_interrupted hevaluated _ _)
          | fault cause => exact .pure (failsWith_interrupted hevaluated _ _)
          | done =>
              obtain ⟨hjacobian, own, rfl⟩ := hevaluated.of_done
              dsimp only
              cases correct settings linear iteration state value matrix with
              | inl report => exact .pure (.of_unfailing (by simpa using hjacobian))
              | inr next =>
                  exact (ih ..).weaken fun more report hmore =>
                    .append hjacobian hmore fun n cause =>
                      congrArg (fate step time · cause) (Nat.add_assoc iteration 1 n)

theorem solver_logs (keep : Nat → σ → σ) {system : AlgebraicSystem (Watched σ α) α} {step : Nat}
    {time : α} (h : Reports system step time) (state : Vec α) :
    Logs ((solver settings linear (keepBeside _ keep)).solve system state)
      fun evaluations outcome => FailsWith (fate step time) evaluations outcome.ending := by
  have hrun : Logs (run settings linear system state) fun evaluations report =>
      FailsWith (fate step time) evaluations report.ending :=
    (iterate_logs settings linear h ..).weaken fun evaluations report hreport =>
      hreport.map fun n cause hcause => by rwa [Nat.zero_add] at hcause
  refine hrun.bind fun report evaluations hreport => ?_
  refine Logs.silently ⟨fun env => ⟨[], (List.append_nil env.1).symm, rfl⟩⟩ fun _ => .pure ?_
  rwa [List.append_nil]

end Newton

/-! ## Implicit steps -/

namespace Chain

theorem solveStep_logs {solver : Solver (Watched σ α) α} {system : AlgebraicSystem (Watched σ α) α}
    {fate : Nat → Failure α → Failure α}
    (h : ∀ state, Logs (solver.solve system state) fun evaluations outcome =>
      FailsWith fate evaluations outcome.ending)
    (guess : Guess σ α) (point : StepPoint α) (live : Vec α) :
    Logs (solveStep solver system (guess.beside _) point live) fun evaluations outcome =>
      FailsWith fate evaluations outcome.ending := by
  refine Logs.silently (.besides fun _ => rfl) ?_
  rintro ⟨start, fault⟩
  cases fault with
  | some cause => exact .pure .nil
  | none => exact h start

theorem seed_beside (step : Nat) (guess : Guess σ α) (chain : Chain α) :
    seed step (guess.beside τ) chain = (seed step guess chain).beside τ := by
  cases chain with
  | nil => rfl
  | cons member auxiliary =>
      by_cases hd : step ≤ stencilSize auxiliary
      · rw [seed, if_pos hd, seed, if_pos hd]
        rfl
      · rw [seed, if_neg hd, seed, if_neg hd]

variable [Scalar α]

theorem surfaced_fate (step : Nat) (now dt : α) (updates : Nat) (cause : Failure α) :
    (Newton.fate step (now + dt) updates cause).surfaced step dt =
      implicitFate step now dt updates cause := by
  cases cause <;> rfl

variable [Journal α σ]

/-- An evaluation that fails in an attempt, by whatever member of the chain, ends it. -/
theorem attempt_logs {equation : StepEquation (Watched σ α) α}
    (hequation : ∀ point stencil, Reports (equation.system point stencil) point.step point.time)
    (settings : Newton.Settings α) (linear : Newton.LinearSolver α) (keep : Nat → σ → σ)
    (chain : Chain α) (guess : Guess σ α) (live : Vec α) (now dt : α) (step : Nat) :
    Logs (attempt equation (Newton.solver settings linear (Newton.keepBeside _ keep)) chain
        (guess.beside _) live now dt step) fun evaluations result =>
      FailsWith (implicitFate step now dt) evaluations result.ending := by
  cases hs : solving? step chain with
  | none =>
      rw [attempt_of_refused _ _ hs]
      exact .pure .nil
  | some member =>
      let point : StepPoint α := ⟨step, now + dt, dt⟩
      rw [attempt_of_solving _ _ hs, seed_beside]
      refine (Logs.noteAll _).silently fun _ => ?_
      refine (solveStep_logs (Newton.solver_logs settings linear keep (hequation point _)) _ _
        live).bind fun solved evaluations hsolved => ?_
      refine (Logs.noteAll _).silently fun _ => .pure ?_
      rw [List.append_nil, ending_closed live point solved hs]
      refine hsolved.map fun updates cause hcause => ?_
      rw [hcause, ← surfaced_fate]
      rfl

end Chain

/-! ## Explicit steps -/

namespace ExplicitStepper

variable [Scalar α] (system : ContinuousSystem σ α)

theorem evaluateStages_logs (scheme : ExplicitScheme) (y : Vec α) (time dt : α)
    (buffers slopes : List (Vec α)) :
    Logs (evaluateStages system.watched scheme y time dt buffers slopes)
      fun evaluations outcome => FailsWith (fun _ cause => cause) evaluations outcome.ending := by
  induction buffers generalizing slopes with
  | nil => exact .pure .nil
  | cons buffer buffers ih =>
      unfold evaluateStages
      cases stageState scheme y dt slopes with
      | error cause => exact .pure .nil
      | ok state =>
          refine (system.velocity_logs ..).bind ?_
          rintro ⟨slope, ending⟩ _ rfl
          cases ending with
          | done =>
              exact (ih _).weaken fun more outcome hmore =>
                .append (by simp [Unfailing]) hmore fun _ _ => rfl
          | failed cause =>
              exact .pure (.single fun raised hraised => hraised)
          | fault cause => exact .pure (.single fun raised hraised => by cases hraised)

theorem attempt_logs [Journal α σ] (stepper : ExplicitStepper α) (live : Vec α) (time dt : α)
    (step : Nat) :
    Logs (attempt system.watched stepper live time dt step) fun evaluations outcome =>
      FailsWith (explicitFate step time dt) evaluations outcome.ending := by
  refine (Logs.note _).silently fun _ => (evaluateStages_logs ..).bind ?_
  rintro ⟨slopes, ending⟩ evaluations hevaluations
  rw [← List.append_nil evaluations] at hevaluations
  cases ending with
  | done =>
      dsimp only
      cases finalState stepper.scheme live dt slopes with
      | error cause => exact .pure (hevaluations.map nofun)
      | ok next => exact .pure (hevaluations.map nofun)
  | fault cause => exact .pure (hevaluations.map nofun)
  | failed cause =>
      refine .pure (hevaluations.map fun updates raised hraised => ?_)
      obtain rfl := Ending.failed.inj hraised
      exact congrArg Ending.failed (Failure.asTimeStepFailure_eq_surfaced ..)

end ExplicitStepper

end TimeStepping
