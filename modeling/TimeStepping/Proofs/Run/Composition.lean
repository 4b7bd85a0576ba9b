import TimeStepping.Proofs.Exact
import TimeStepping.Proofs.Renumbering
import TimeStepping.Proofs.Run.Trace

/-!
# Runs one after the other

A run of steppers that do not mind the number of a step can be cut in two: the second part
starts at the time and the state that the first one returned, with the stepper as it was
left.  The loop is cut by `stepsFrom_add`; that the second loop may count from zero again is
the induction of `stepsFrom_renumbered`.  Arithmetic is exact, so that the times agree.
-/

namespace TimeStepping

variable {σ τ ω κ : Type}

/-- How runs end that differ in the numbers of a failure at most. -/
inductive RunEnding.Alike {α β : Type} : RunEnding α β → RunEnding α β → Prop
  | finished (result : β) : Alike (.finished result) (.finished result)
  | failed {cause cause' : Failure α} (h : cause.unnumbered = cause'.unnumbered) :
      Alike (.failed cause) (.failed cause')
  | fault (cause : Fault) : Alike (.fault cause) (.fault cause)

/-- Under two numbers, a step ends alike and leaves the same state; `same` is what it keeps
of the environments. -/
structure Steppable.Numberless (same : σ → σ → Prop) (stepper : Steppable σ ℝ) : Prop where
  step (live : Vec ℝ) (time dt : ℝ) (step step' : Nat) :
    Parallel same (stepper.step live time dt (step + 1)) (stepper.step live time dt (step' + 1))
      fun outcome outcome' env env' => outcome.Alike outcome' ∧ same env env'

namespace Run

open Trace

/-! ## Cutting the loop -/

section Cutting

variable {α : Type} [Scalar α] (stepper : Steppable σ α) (observer : Observer σ α) (start dt : α)

/-- Go on with more steps after a run that was finished. -/
def thenSteps (remaining step : Nat) (run : Run α α) : StateM σ (Run α α) :=
  match run.ending with
  | .finished time => stepsFrom stepper observer start dt remaining step time run.live
  | _ => pure run

theorem thenSteps_of_unfinished (remaining step : Nat) {run : Run α α}
    (h : ∀ time, run.ending ≠ .finished time) :
    thenSteps stepper observer start dt remaining step run = pure run := by
  unfold thenSteps
  split
  · rename_i time hfinished
    exact absurd hfinished (h time)
  · rfl

theorem stepsFrom_add (first second step : Nat) (time : α) (live : Vec α) :
    stepsFrom stepper observer start dt (first + second) step time live =
      stepsFrom stepper observer start dt first step time live >>=
        thenSteps stepper observer start dt second (step + first) := by
  induction first generalizing step time live with
  | zero => rw [Nat.zero_add]; rfl
  | succ first ih =>
      have hstep : step + (first + 1) = step + 1 + first := by omega
      rw [Nat.succ_add, hstep]
      simp only [stepsFrom, bind_assoc]
      refine bind_congr fun outcome => ?_
      cases outcome.ending with
      | done => simp only [ih, bind_assoc]
      | failed cause => rfl
      | fault cause => rfl

end Cutting

/-! ## Counting from zero again -/

/-- Runs that leave the same state and end alike. -/
def Alike {β : Type} (run run' : Run ℝ β) : Prop :=
  run.live = run'.live ∧ run.ending.Alike run'.ending

section Renumbering

variable {same : σ → σ → Prop} {stepper : Steppable σ ℝ} (hstepper : stepper.Numberless same)
  {observer : Observer σ ℝ}
  (hobserver : ∀ step step' time live,
    Parallel same (observer step time live) (observer step' time live) fun _ _ => same)

include hstepper hobserver

theorem stepsFrom_renumbered (start dt : ℝ) (before remaining step : Nat) (time : ℝ)
    (live : Vec ℝ) :
    Parallel same (stepsFrom stepper observer start dt remaining (before + step) time live)
      (stepsFrom stepper observer (start + before * dt) dt remaining step time live)
      fun run run' env env' => run.Alike run' ∧ same env env' := by
  induction remaining generalizing step time live with
  | zero => exact .pure fun _ _ henv => ⟨⟨rfl, .finished time⟩, henv⟩
  | succ remaining ih =>
      refine (hstepper.step live time dt (before + step) step).bind fun outcome outcome' =>
        .given fun houtcome => ?_
      obtain ⟨value, ending⟩ := outcome
      obtain ⟨_, ending'⟩ := outcome'
      obtain ⟨rfl, hending⟩ := houtcome
      cases hending with
      | failed hcause => exact .pure fun _ _ henv => ⟨⟨rfl, .failed hcause⟩, henv⟩
      | fault cause => exact .pure fun _ _ henv => ⟨⟨rfl, .fault cause⟩, henv⟩
      | done =>
          have htime : start + ((before + step + 1 : Nat) : ℝ) * dt =
              start + before * dt + ((step + 1 : Nat) : ℝ) * dt := by
            push_cast
            ring
          dsimp only
          rw [htime]
          exact (hobserver ..).bind fun _ _ => ih (step + 1) _ value

/-- What a run leaves is like itself, if what it starts with is. -/
theorem steps_keeps (start dt : ℝ) (count : Nat) (live : Vec ℝ) {env : σ} (henv : same env env) :
    same (steps stepper observer start dt count live env).2
      (steps stepper observer start dt count live env).2 := by
  unfold steps
  cases TimeGrid.checkDt dt 1 with
  | error cause => exact henv
  | ok _ =>
      have hfrom := stepsFrom_renumbered hstepper hobserver start dt 0 count 0 start live
      rw [Nat.zero_add, Nat.cast_zero, zero_mul, add_zero] at hfrom
      exact (hfrom.holds _ _ ((hobserver 0 0 start live).holds env env henv)).2

end Renumbering

/-- A run that is finished has come to the time of its last step. -/
theorem stepsFrom_time (stepper : Steppable σ ℝ) (observer : Observer σ ℝ) (start dt : ℝ)
    (remaining step : Nat) {time : ℝ} (htime : time = start + step * dt) (live : Vec ℝ) :
    Ensures (fun _ => True) (stepsFrom stepper observer start dt remaining step time live)
      fun run _ => ∀ result, run.ending = .finished result →
        result = start + (step + remaining : Nat) * dt := by
  induction remaining generalizing step time live with
  | zero =>
      refine .pure fun _ _ result hresult => ?_
      cases hresult
      exact htime
  | succ remaining ih =>
      have hcount : step + (remaining + 1) = step + 1 + remaining := by omega
      rw [hcount]
      refine Ensures.bind (Q := fun _ _ => True) ⟨fun _ _ => trivial⟩ fun outcome => ?_
      cases outcome.ending with
      | failed cause => exact .pure fun _ _ _ h => by cases h
      | fault cause => exact .pure fun _ _ _ h => by cases h
      | done =>
          exact Ensures.bind (Q := fun _ _ => True) ⟨fun _ _ => trivial⟩ fun _ =>
            ih (step + 1) rfl outcome.value

/-! ## What the two runs show -/

/-- Of the traces, the long run has shown what the run before it showed and then what the
run after that showed, its opening apart, and as many steps are accepted. -/
structure Continues (same : σ → σ → Prop) (before : Trace σ ℝ Unit)
    (long after : Trace σ ℝ Unit × σ) : Prop where
  same : same long.2 after.2
  shown : long.1.shown.map (·.2) = before.shown.map (·.2) ++ (after.1.shown.map (·.2)).tail
  opened : after.1.shown ≠ []
  accepted : long.1.acceptances.length = before.acceptances.length + after.1.acceptances.length

theorem length_acceptances (trace : Trace σ ℝ Unit) (trial : Trial σ ℝ) :
    (Trace.acceptances (trace ++ [.attempted trial])).length =
      trace.acceptances.length + if trial.outcome.ending.isDone then 1 else 0 := by
  by_cases h : trial.outcome.ending = .done
  · rw [acceptances_of_done trace h, if_pos (Ending.isDone_iff.2 h)]
    exact List.length_append
  · rw [acceptances_of_undone trace h, if_neg (mt Ending.isDone_iff.1 h), Nat.add_zero]

section Traces

variable {same : σ → σ → Prop} {stepper : Steppable σ ℝ} {observer : Observer σ ℝ}
  {before : Trace σ ℝ Unit}

theorem numberless_traced (h : stepper.Numberless same) :
    (stepper.traced Unit).Numberless (Continues same before) := by
  constructor
  intro live time dt step step'
  constructor
  rintro ⟨long, env⟩ ⟨after, env'⟩ ⟨hsame, hshown, hopened, haccepted⟩
  obtain ⟨houtcome, hsame'⟩ := (h.step live time dt step step').holds env env' hsame
  refine ⟨houtcome, hsame', ?_, ?_, ?_⟩
  · simpa [Steppable.traced, logging] using hshown
  · simpa [Steppable.traced, logging] using hopened
  · simp only [Steppable.traced, logging, length_acceptances, haccepted, houtcome.2.isDone_eq,
      Nat.add_assoc]

theorem observer_continues
    (h : ∀ step step' time live,
      Parallel same (observer step time live) (observer step' time live) fun _ _ => same)
    (step step' : Nat) (time : ℝ) (live : Vec ℝ) :
    Parallel (Continues same before) (observer.traced Unit step time live)
      (observer.traced Unit step' time live) fun _ _ => Continues same before := by
  constructor
  rintro ⟨long, env⟩ ⟨after, env'⟩ ⟨hsame, hshown, hopened, haccepted⟩
  refine ⟨(h step step' time live).holds env env' hsame, ?_, ?_, ?_⟩
  · have htail : (after.shown.map (·.2)) ≠ [] := by simpa using hopened
    simp [Observer.traced, logging, hshown, List.tail_append_of_ne_nil htail]
  · simp [Observer.traced, logging]
  · simpa [Observer.traced, logging] using haccepted

/-- Where the first run is finished, the second one has shown its opening only. -/
theorem Continues.opening
    (hopen : ∀ env env' step time live, same env env' → same env (observer step time live env').2)
    (before : Trace σ ℝ Unit) {env : σ} (henv : same env env) (time : ℝ) (live : Vec ℝ) :
    Continues same before (before, env) (observer.traced Unit 0 time live ([], env)).2 where
  same := hopen _ _ _ _ _ henv
  shown := by simp [Observer.traced, logging, Trace.shown]
  opened := by simp [Observer.traced, logging, Trace.shown]
  accepted := by simp [Observer.traced, logging, Trace.acceptances]

end Traces

/-! ## Composition -/

/-- A run of the steps of two others, one after the other, does what they do.  What is
finished by the first is continued by the second from the time it returned; a run that fails
does so in the same part, with the same state, after as many accepted steps and with the same
failure but for its numbers.  The runs are traced, which changes nothing. -/
structure Composes (same : σ → σ → Prop) (stepper : Steppable σ ℝ) (observer : Observer σ ℝ)
    (env : σ) : Prop where
  mirrors (start dt : ℝ) (count : Nat) (live : Vec ℝ) :
    ActsAs (steps (stepper.traced Unit) (observer.traced Unit) start dt count live)
      (steps stepper observer start dt count live)
  compose (start dt : ℝ) (count more : Nat) (live : Vec ℝ) :
    let run start count live env :=
      steps (stepper.traced Unit) (observer.traced Unit) start dt count live ([], env)
    let long := run start (count + more) live env
    let first := run start count live env
    (∀ time, first.1.ending = .finished time →
      let second := run time more first.1.live first.2.2
      time = start + count * dt ∧ long.1.Alike second.1 ∧
        Continues same first.2.1 long.2 second.2) ∧
    ((∀ time, first.1.ending ≠ .finished time) → long = first)

theorem composes_of_numberless {same : σ → σ → Prop} {stepper : Steppable σ ℝ}
    {observer : Observer σ ℝ} (hstepper : stepper.Numberless same)
    (hobserver : ∀ step step' time live,
      Parallel same (observer step time live) (observer step' time live) fun _ _ => same)
    (hopen : ∀ env env' step time live, same env env' → same env (observer step time live env').2)
    {env : σ} (henv : same env env) : Composes same stepper observer env := by
  refine ⟨fun start dt count live => steps_traced stepper observer live start dt count, ?_⟩
  intro start dt count more live run long first
  cases hdt : TimeGrid.checkDt dt 1 with
  | error cause =>
      have hrefused (start : ℝ) (count : Nat) (live : Vec ℝ) (env : σ) :
          run start count live env = (refused live cause, [], env) := by
        simp only [run, steps, hdt]
        rfl
      refine ⟨fun time hfinished => ?_, fun _ => ?_⟩
      · simp [first, hrefused, refused] at hfinished
      · simp only [long, first, hrefused]
  | ok _ =>
      have hrun (start : ℝ) (count : Nat) (live : Vec ℝ) (env : σ) : run start count live env =
          stepsFrom (stepper.traced Unit) (observer.traced Unit) start dt count 0 start live
            (observer.traced Unit 0 start live ([], env)).2 := by
        simp only [run, steps, hdt]
        rfl
      have hlong : long = thenSteps (stepper.traced Unit) (observer.traced Unit) start dt more
          count first.1 first.2 := by
        simp only [long, first, hrun, stepsFrom_add, bind_apply, Nat.zero_add]
      constructor
      · intro time hfinished second
        have htime : time = start + count * dt := by
          have hzero : start = start + (0 : Nat) * dt := by simp
          have hreached := (stepsFrom_time (stepper.traced Unit) (observer.traced Unit) start dt
            count 0 hzero live).holds (observer.traced Unit 0 start live ([], env)).2 trivial
          rw [Nat.zero_add, ← hrun] at hreached
          exact hreached time hfinished
        have hsame : same first.2.2 first.2.2 := by
          have hkeeps := steps_keeps hstepper hobserver start dt count live henv
          rwa [← (steps_traced stepper observer live start dt count).eq ([], env)] at hkeeps
        have hafter := (stepsFrom_renumbered (numberless_traced hstepper)
          (observer_continues hobserver) start dt count more 0 time first.1.live).holds _ _
            (Continues.opening hopen first.2.1 hsame time first.1.live)
        rw [← htime, ← hrun] at hafter
        rw [hlong, thenSteps, hfinished]
        exact ⟨htime, hafter⟩
      · intro hunfinished
        rw [hlong, thenSteps_of_unfinished _ _ _ _ _ _ hunfinished]
        rfl

end Run

/-! ## One-step schemes -/

section Schemes

variable [Journal ℝ ω] (system : ContinuousSystem τ ℝ)

/-- The same stepper, and the same environment of the system. -/
def SameStepper {κ : Type} (alike : κ → κ → Prop) (env env' : κ × τ × ω) : Prop :=
  alike env.1 env'.1 ∧ SameFront env.2 env'.2

theorem ExplicitStepper.steppable_numberless (scheme : ExplicitScheme) :
    (steppable (system.ahead ω) scheme).Numberless (SameStepper Eq) := by
  constructor
  intro live time dt step step'
  constructor
  rintro ⟨stepper, env⟩ ⟨_, env'⟩ ⟨rfl, henv⟩
  obtain ⟨⟨hvalue, hending⟩, henv'⟩ :=
    (attempt_renumbered system stepper live time dt (step + 1) (step' + 1)).holds env env' henv
  exact ⟨⟨(congrArg Prod.snd hvalue :), hending⟩, (congrArg Prod.fst hvalue :), henv'⟩

theorem Chain.steppable_numberless (settings : Newton.Settings ℝ)
    (linear : Newton.LinearSolver ℝ) (keep : Nat → ω → ω) (order : Nat) :
    (steppable (.bdf (system.ahead ω)) (Newton.solver settings linear (Newton.keepBeside τ keep))
      order).Numberless (SameStepper Alike) := by
  constructor
  intro live time dt step step'
  constructor
  rintro ⟨chain, env⟩ ⟨chain', env'⟩ ⟨hchain, henv⟩
  obtain ⟨⟨hlive, hending, hchain'⟩, henv'⟩ :=
    (attempt_renumbered system settings linear keep hchain live time dt step step').holds env env'
      henv
  exact ⟨⟨hlive, hending⟩, hchain', henv'⟩

/-- Runs of the explicit schemes, and of a formula that is not started up by another, as the
one over one state, compose.  The observer stands behind the environment of the system. -/
theorem Run.one_step_runs_compose (observer : Observer ω ℝ) (env : τ × ω) :
    (∀ stepper : ExplicitStepper ℝ,
      Composes (SameStepper Eq) (ExplicitStepper.steppable (system.ahead ω) stepper.scheme)
        ((observer.beside τ).beside (ExplicitStepper ℝ)) (stepper, env)) ∧
    ∀ (settings : Newton.Settings ℝ) (linear : Newton.LinearSolver ℝ) (keep : Nat → ω → ω)
      (order : Nat) (member : Member ℝ),
      Composes (SameStepper Chain.Alike)
        (Chain.steppable (.bdf (system.ahead ω))
          (Newton.solver settings linear (Newton.keepBeside τ keep)) order)
        ((observer.beside τ).beside (Chain ℝ)) ([member], env) :=
  ⟨fun stepper =>
      composes_of_numberless (ExplicitStepper.steppable_numberless system stepper.scheme)
        (fun _ _ _ _ => ⟨fun _ _ h => h⟩) (fun _ _ _ _ _ h => h) ⟨rfl, rfl⟩,
    fun settings linear keep order member =>
      composes_of_numberless (Chain.steppable_numberless system settings linear keep order)
        (fun _ _ _ _ => ⟨fun _ _ h => h⟩) (fun _ _ _ _ _ h => h)
        ⟨⟨member, member, rfl, rfl, rfl⟩, rfl⟩⟩

end Schemes

end TimeStepping
