import TimeStepping.Proofs.Implicit.Delegation
import TimeStepping.Proofs.Watching

/-!
# Steps under another number

A step of an explicit scheme, or of a chain of one member, does not depend on its number:
under another one it leaves the same state in the same way, and what differs is the number
in its failure and in what is noted.  The system acts on an environment of its own here, in
front of the journal.  Main statements: `ExplicitStepper.attempt_renumbered`,
`Chain.attempt_renumbered`.
-/

namespace TimeStepping

variable {τ ω α : Type}

/-! ## Failures without numbers -/

/-- The failure, with no number in it or in what caused it. -/
def Failure.unnumbered : Failure α → Failure α
  | residual _ time source => residual 0 time source.unnumbered
  | unevaluated iterations source => unevaluated iterations source.unnumbered
  | timeStep _ dt source => timeStep 0 dt source.unnumbered
  | timeStepTooSmall _ dt minimum => timeStepTooSmall 0 dt minimum
  | failure => failure

namespace Failure

@[simp] theorem isRecoverable_unnumbered (failure : Failure α) :
    failure.unnumbered.isRecoverable = failure.isRecoverable := by
  cases failure <;> rfl

@[simp] theorem isTimeStepFailure_unnumbered (failure : Failure α) :
    failure.unnumbered.isTimeStepFailure = failure.isTimeStepFailure := by
  cases failure <;> rfl

theorem unnumbered_asTimeStepFailure (step : Nat) (dt : α) (failure : Failure α) :
    (failure.asTimeStepFailure step dt).unnumbered = failure.unnumbered.asTimeStepFailure 0 dt := by
  unfold asTimeStepFailure
  rw [isTimeStepFailure_unnumbered, isRecoverable_unnumbered]
  split <;> rfl

theorem unnumbered_asResidualFailure (step : Nat) (time : α) (failure : Failure α) :
    (failure.asResidualFailure step time).unnumbered =
      failure.unnumbered.asResidualFailure 0 time := by
  unfold asResidualFailure
  rw [isRecoverable_unnumbered]
  split <;> rfl

theorem unnumbered_asSolveFailure (iterations : Nat) (failure : Failure α) :
    (failure.asSolveFailure iterations).unnumbered =
      failure.unnumbered.asSolveFailure iterations := by
  unfold asSolveFailure
  rw [isRecoverable_unnumbered]
  split <;> rfl

end Failure

/-- Endings that differ in the numbers of a failure at most. -/
inductive Ending.Alike : Ending α → Ending α → Prop
  | done : Alike .done .done
  | failed {cause cause' : Failure α} (h : cause.unnumbered = cause'.unnumbered) :
      Alike (.failed cause) (.failed cause')
  | fault (cause : Fault) : Alike (.fault cause) (.fault cause)

theorem Ending.Alike.isDone_eq {ending ending' : Ending α} (h : ending.Alike ending') :
    ending.isDone = ending'.isDone := by
  cases h <;> rfl

/-- Outcomes with the same value, and endings that are alike. -/
def Outcome.Alike {β : Type} (outcome outcome' : Outcome α β) : Prop :=
  outcome.value = outcome'.value ∧ outcome.ending.Alike outcome'.ending

theorem Ending.Alike.refl (ending : Ending α) : ending.Alike ending := by
  cases ending with
  | done => exact .done
  | failed cause => exact .failed rfl
  | fault cause => exact .fault cause

/-! ## Systems with an environment of their own -/

/-- Act on the environment in front of a component, which stays as it is. -/
def ahead {β : Type} (ω : Type) (action : StateM τ β) : StateM (τ × ω) β :=
  fun env => ((action env.1).1, (action env.1).2, env.2)

/-- The same system, in an environment with a component it does not see behind. -/
def ContinuousSystem.ahead (ω : Type) (system : ContinuousSystem τ α) :
    ContinuousSystem (τ × ω) α where
  velocityBuffer := system.velocityBuffer
  jacobianBuffer := system.jacobianBuffer
  velocity state time buffer := TimeStepping.ahead ω (system.velocity state time buffer)
  jacobian state time buffer := TimeStepping.ahead ω (system.jacobian state time buffer)

/-- Environments in which systems stand alike, whatever is behind. -/
def SameFront (env env' : τ × ω) : Prop :=
  env.1 = env'.1

theorem ahead_parallel {β : Type} (action : StateM τ β) :
    Parallel SameFront (ahead ω action) (ahead ω action) fun value value' env env' =>
      value = value' ∧ SameFront env env' := by
  constructor
  rintro ⟨front, behind⟩ ⟨_, behind'⟩ ⟨rfl⟩
  exact ⟨rfl, rfl⟩

variable [Journal α ω]

theorem note_parallel (event event' : Event α) :
    Parallel SameFront (note event : StateM (τ × ω) Unit) (note event') fun _ _ => SameFront :=
  ⟨fun _ _ henv => henv⟩

theorem noteAll_parallel (events events' : List (Event α)) :
    Parallel SameFront (noteAll events : StateM (τ × ω) Unit) (noteAll events')
      fun _ _ => SameFront := by
  have hfront (events : List (Event α)) (env : τ × ω) : (noteAll events env).2.1 = env.1 := by
    induction events generalizing env with
    | nil => rfl
    | cons event events ih => exact ih _
  exact ⟨fun env env' henv => (hfront events env).trans (henv.trans (hfront events' env').symm)⟩

variable [Scalar α]

/-! ## Explicit steps -/

namespace ExplicitStepper

omit [Journal α ω] in
theorem evaluateStages_renumbered (system : ContinuousSystem τ α) (scheme : ExplicitScheme)
    (y : Vec α) (time dt : α) (buffers slopes : List (Vec α)) :
    Parallel SameFront (evaluateStages (system.ahead ω) scheme y time dt buffers slopes)
      (evaluateStages (system.ahead ω) scheme y time dt buffers slopes)
      fun stages stages' env env' => stages = stages' ∧ SameFront env env' := by
  induction buffers generalizing slopes with
  | nil => exact .pure fun _ _ henv => ⟨rfl, henv⟩
  | cons buffer buffers ih =>
      unfold evaluateStages
      cases stageState scheme y dt slopes with
      | error cause => exact .pure fun _ _ henv => ⟨rfl, henv⟩
      | ok state =>
          refine (ahead_parallel _).bind fun slope slope' => ⟨?_⟩
          rintro env env' ⟨rfl, henv⟩
          cases slope.ending with
          | done => exact (ih _).holds env env' henv
          | failed cause => exact ⟨rfl, henv⟩
          | fault cause => exact ⟨rfl, henv⟩

theorem attempt_renumbered (system : ContinuousSystem τ α) (stepper : ExplicitStepper α)
    (live : Vec α) (time dt : α) (step step' : Nat) :
    Parallel SameFront (attempt (system.ahead ω) stepper live time dt step)
      (attempt (system.ahead ω) stepper live time dt step')
      fun outcome outcome' env env' => outcome.Alike outcome' ∧ SameFront env env' := by
  refine (note_parallel _ _).bind fun _ _ => ?_
  refine (evaluateStages_renumbered ..).bind fun stages stages' => ⟨?_⟩
  rintro env env' ⟨rfl, henv⟩
  dsimp only
  cases stages.ending with
  | done =>
      dsimp only
      cases finalState stepper.scheme live dt stages.value with
      | ok next => exact ⟨⟨rfl, .done⟩, henv⟩
      | error cause => exact ⟨⟨rfl, .fault cause⟩, henv⟩
  | failed cause =>
      refine ⟨⟨rfl, .failed ?_⟩, henv⟩
      rw [Failure.unnumbered_asTimeStepFailure, Failure.unnumbered_asTimeStepFailure]
  | fault cause => exact ⟨⟨rfl, .fault cause⟩, henv⟩

end ExplicitStepper

/-! ## Newton iteration -/

/-- Equations whose evaluations differ in the numbers of a failure at most. -/
structure AlgebraicSystem.Alike (first second : AlgebraicSystem (τ × ω) α) : Prop where
  residualBuffer : first.residualBuffer = second.residualBuffer
  jacobianBuffer : first.jacobianBuffer = second.jacobianBuffer
  residual (state buffer : Vec α) :
    Parallel SameFront (first.residual state buffer) (second.residual state buffer)
      fun outcome outcome' env env' => outcome.Alike outcome' ∧ SameFront env env'
  jacobian (state : Vec α) (buffer : Mat α) :
    Parallel SameFront (first.jacobian state buffer) (second.jacobian state buffer)
      fun outcome outcome' env env' => outcome.Alike outcome' ∧ SameFront env env'

namespace Newton

structure Report.Alike (report report' : Report α) : Prop where
  state : report.state = report'.state
  iterations : report.iterations = report'.iterations
  ending : report.ending.Alike report'.ending

omit [Journal α ω] [Scalar α] in
theorem Report.Alike.refl (report : Report α) : report.Alike report :=
  ⟨rfl, rfl, .refl _⟩

omit [Journal α ω] [Scalar α] in
theorem interrupted_alike (state : Vec α) (iterations : Nat) {ending ending' : Ending α}
    (h : ending.Alike ending') :
    (Report.interrupted state iterations ending).Alike
      (Report.interrupted state iterations ending') := by
  cases h with
  | done => exact .refl _
  | fault cause => exact .refl _
  | failed h =>
      refine ⟨rfl, rfl, .failed ?_⟩
      rw [Failure.unnumbered_asSolveFailure, Failure.unnumbered_asSolveFailure, h]

theorem iterate_renumbered (settings : Settings α) (linear : LinearSolver α)
    {first second : AlgebraicSystem (τ × ω) α} (h : first.Alike second)
    (remaining iteration : Nat) (initial : α) (state residual : Vec α) (jacobian : Mat α) :
    Parallel SameFront
      (iterate settings linear first remaining iteration initial state residual jacobian)
      (iterate settings linear second remaining iteration initial state residual jacobian)
      fun report report' env env' => report.Alike report' ∧ SameFront env env' := by
  induction remaining generalizing iteration initial state residual jacobian with
  | zero => exact .pure fun _ _ henv => ⟨.refl _, henv⟩
  | succ remaining ih =>
      refine (h.residual state residual).bind fun r r' => .given fun hr => ?_
      obtain ⟨r, ending⟩ := r
      obtain ⟨_, ending'⟩ := r'
      obtain ⟨rfl, hending⟩ := hr
      cases hending with
      | failed hcause =>
          exact .pure fun _ _ henv => ⟨interrupted_alike state iteration (.failed hcause), henv⟩
      | fault cause => exact .pure fun _ _ henv => ⟨.refl _, henv⟩
      | done =>
          refine .ite (.pure fun _ _ henv => ⟨.refl _, henv⟩) ?_
          refine (note_parallel _ _).bind fun _ _ => .ite (.pure fun _ _ henv => ⟨.refl _, henv⟩) ?_
          refine (h.jacobian state jacobian).bind fun j j' => .given fun hj => ?_
          obtain ⟨j, ending⟩ := j
          obtain ⟨_, ending'⟩ := j'
          obtain ⟨rfl, hending⟩ := hj
          cases hending with
          | failed hcause =>
              exact .pure fun _ _ henv =>
                ⟨interrupted_alike state iteration (.failed hcause), henv⟩
          | fault cause => exact .pure fun _ _ henv => ⟨.refl _, henv⟩
          | done =>
              dsimp only
              cases correct settings linear iteration state r j with
              | inl report => exact .pure fun _ _ henv => ⟨.refl _, henv⟩
              | inr next => exact ih ..

theorem solver_renumbered (settings : Settings α) (linear : LinearSolver α) (keep : Nat → ω → ω)
    {first second : AlgebraicSystem (τ × ω) α} (h : first.Alike second) (state : Vec α) :
    Parallel SameFront ((solver settings linear (keepBeside τ keep)).solve first state)
      ((solver settings linear (keepBeside τ keep)).solve second state)
      fun solved solved' env env' => solved.Alike solved' ∧ SameFront env env' := by
  have hrun : Parallel SameFront (run settings linear first state)
      (run settings linear second state)
      fun report report' env env' => report.Alike report' ∧ SameFront env env' := by
    unfold run
    rw [h.residualBuffer, h.jacobianBuffer]
    exact iterate_renumbered settings linear h ..
  refine hrun.bind fun report report' => .given fun hreport => ?_
  exact ⟨fun _ _ henv => ⟨⟨hreport.state, hreport.ending⟩, henv⟩⟩

end Newton

/-! ## Implicit steps -/

omit [Journal α ω] [Scalar α] in
theorem Outcome.mapFailure_alike {β : Type} {f f' : Failure α → Failure α}
    (hf : ∀ cause, (f cause).unnumbered = (f' cause).unnumbered) (outcome : Outcome α β) :
    (outcome.mapFailure f).Alike (outcome.mapFailure f') := by
  obtain ⟨value, ending⟩ := outcome
  cases ending with
  | done => exact ⟨rfl, .done⟩
  | failed cause => exact ⟨rfl, .failed (hf cause)⟩
  | fault cause => exact ⟨rfl, .fault cause⟩

omit [Journal α ω] in
theorem StepEquation.bdf_renumbered (system : ContinuousSystem τ α) (step step' : Nat)
    (time dt : α) (stencil : Stencil α) :
    ((bdf (system.ahead ω)).system ⟨step, time, dt⟩ stencil).Alike
      ((bdf (system.ahead ω)).system ⟨step', time, dt⟩ stencil) := by
  have hmap {β : Type} (outcome : Outcome α β) :
      (outcome.mapFailure (·.asResidualFailure step time)).Alike
        (outcome.mapFailure (·.asResidualFailure step' time)) := by
    refine outcome.mapFailure_alike fun cause => ?_
    rw [Failure.unnumbered_asResidualFailure, Failure.unnumbered_asResidualFailure]
  refine ⟨rfl, rfl, fun trial buffer => ?_, fun trial buffer => ?_⟩
  · change Parallel _ (withTable stencil buffer _) (withTable stencil buffer _) _
    unfold withTable
    split
    · refine (ahead_parallel _).bind fun velocity velocity' => .given ?_
      rintro rfl
      cases hending : velocity.ending with
      | done => exact .pure fun _ _ henv => ⟨⟨rfl, .refl _⟩, henv⟩
      | failed cause => exact .pure fun _ _ henv => ⟨hmap velocity, henv⟩
      | fault cause => exact .pure fun _ _ henv => ⟨hmap velocity, henv⟩
    · exact .pure fun _ _ henv => ⟨⟨rfl, .refl _⟩, henv⟩
  · change Parallel _ (withTable stencil buffer _) (withTable stencil buffer _) _
    unfold withTable
    split
    · refine (ahead_parallel _).bind fun jacobian jacobian' => .given ?_
      rintro rfl
      cases hending : jacobian.ending with
      | done => exact .pure fun _ _ henv => ⟨⟨rfl, .done⟩, henv⟩
      | failed cause => exact .pure fun _ _ henv => ⟨hmap jacobian, henv⟩
      | fault cause => exact .pure fun _ _ henv => ⟨hmap jacobian, henv⟩
    · exact .pure fun _ _ henv => ⟨⟨rfl, .refl _⟩, henv⟩

/-- The member, without the number of the step it last attempted. -/
def Member.unnumbered (member : Member α) : Member α :=
  { member with point := { member.point with step := 0 } }

namespace Chain

/-- Chains of one member each, with the same but for the number of the last step. -/
def Alike (chain chain' : Chain α) : Prop :=
  ∃ member member', chain = [member] ∧ chain' = [member'] ∧
    member.unnumbered = member'.unnumbered

omit [Scalar α] [Journal α ω] in
theorem closed_alike {member member' : Member α} (h : member.unnumbered = member'.unnumbered)
    (live : Vec α) (step step' : Nat) (time dt : α) {solved solved' : Outcome α (Vec α)}
    (hsolved : solved.Alike solved') :
    let result := closed live ⟨step + 1, time, dt⟩ solved [member]
    let result' := closed live ⟨step' + 1, time, dt⟩ solved' [member']
    result.live = result'.live ∧ result.ending.Alike result'.ending ∧
      result.chain.Alike result'.chain := by
  intro result result'
  obtain ⟨name, order, stencil, recovery, ⟨number, before, length⟩, phase⟩ := member
  obtain ⟨name', order', stencil', recovery', ⟨number', before', length'⟩, phase'⟩ := member'
  cases h
  obtain ⟨value, ending⟩ := solved
  obtain ⟨_, ending'⟩ := solved'
  obtain ⟨rfl, hending⟩ := hsolved
  cases hending with
  | done => exact ⟨rfl, .done, _, _, rfl, rfl, rfl⟩
  | fault cause => exact ⟨rfl, .fault cause, _, _, rfl, rfl, rfl⟩
  | @failed cause cause' hcause =>
      refine ⟨rfl, .failed ?_, _, _, rfl, rfl, rfl⟩
      rw [Failure.unnumbered_asTimeStepFailure, Failure.unnumbered_asTimeStepFailure, hcause]
      rfl

theorem attempt_renumbered (system : ContinuousSystem τ α) (settings : Newton.Settings α)
    (linear : Newton.LinearSolver α) (keep : Nat → ω → ω) {chain chain' : Chain α}
    (hchain : chain.Alike chain') (live : Vec α) (now dt : α) (step step' : Nat) :
    let solver := Newton.solver settings linear (Newton.keepBeside τ keep)
    Parallel SameFront
      (attempt (.bdf (system.ahead ω)) solver chain Guess.none live now dt (step + 1))
      (attempt (.bdf (system.ahead ω)) solver chain' Guess.none live now dt (step' + 1))
      fun result result' env env' => (result.live = result'.live ∧
        result.ending.Alike result'.ending ∧ result.chain.Alike result'.chain) ∧
          SameFront env env' := by
  intro solver
  obtain ⟨member, member', rfl, rfl, hmember⟩ := hchain
  have hsolving (member : Member α) (step : Nat) :
      solving? (step + 1) [member] = some member := solving?_cons_of_lt step.succ_pos
  have hstencil : member.stencil = member'.stencil := congrArg (·.stencil) hmember
  rw [attempt_of_solving _ _ (hsolving member step),
    attempt_of_solving _ _ (hsolving member' step'), seed_none, seed_none, hstencil]
  refine (noteAll_parallel _ _).bind fun _ _ => ?_
  refine (Newton.solver_renumbered settings linear keep
    (StepEquation.bdf_renumbered system ..) live).bind
      fun solved solved' => .given fun hsolved => ?_
  refine (noteAll_parallel _ _).bind fun _ _ => .pure fun _ _ henv => ⟨?_, henv⟩
  exact closed_alike hmember live step step' (now + dt) dt hsolved

end Chain

end TimeStepping
