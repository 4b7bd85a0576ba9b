import TimeStepping.Proofs.Watching

/-!
# The stages of an explicit step

Which evaluations a step makes, and why it ends as it does.  The stages are evaluated in
order, each at the state made from the slopes before it, up to the first evaluation that
is not completed: `ExplicitStepper.attempt_samples`.
-/

namespace TimeStepping

variable {σ α : Type}

namespace ContinuousSystem

/-- An evaluation of the velocity, with the slope if it was completed. -/
structure Sample (α : Type) where
  state : Vec α
  time : α
  ending : Ending α
  slope : Option (Vec α)

def Sample.of (state : Vec α) (time : α) (outcome : Outcome α (Vec α)) : Sample α :=
  ⟨state, time, outcome.ending, if outcome.ending.isDone then some outcome.value else none⟩

/-- The same system, which also lists its evaluations. -/
def sampled (system : ContinuousSystem σ α) : ContinuousSystem (List (Sample α) × σ) α where
  velocityBuffer := system.velocityBuffer
  jacobianBuffer := system.jacobianBuffer
  velocity state time buffer :=
    logging (fun _ outcome _ => .of state time outcome) (system.velocity state time buffer)
  jacobian state time buffer := besides _ (system.jacobian state time buffer)

theorem velocity_samples (system : ContinuousSystem σ α) (state : Vec α) (time : α)
    (buffer : Vec α) :
    Logs (system.sampled.velocity state time buffer) fun samples outcome =>
      samples = [.of state time outcome] :=
  ⟨fun _ => ⟨_, rfl, rfl⟩⟩

theorem velocity_sampled (system : ContinuousSystem σ α) (state : Vec α) (time : α)
    (buffer : Vec α) :
    ActsAs (system.sampled.velocity state time buffer) (system.velocity state time buffer) :=
  ⟨fun _ => rfl⟩

end ContinuousSystem

open ContinuousSystem

namespace ExplicitStepper

/-- The slopes of the completed evaluations. -/
def slopesOf (samples : List (Sample α)) : List (Vec α) :=
  samples.filterMap (·.slope)

variable [Scalar α]

/-! ## The stages of a step, in order -/

/-- The stages that follow those with the given slopes: each is evaluated at its time, at
the state made from the slopes before it, and only the last may be left uncompleted. -/
def Ordered (scheme : ExplicitScheme) (y : Vec α) (time dt : α) (slopes : List (Vec α))
    (samples : List (Sample α)) : Prop :=
  ∀ before sample after, samples = before ++ sample :: after →
    sample.time = stageTime scheme time dt (slopes.length + before.length) ∧
      stageState scheme y dt (slopes ++ slopesOf before) = .ok sample.state ∧
      (sample.ending ≠ .done → after = [])

/-- Why the evaluation of the stages came to its end, `left` of them being due. -/
inductive Stopped (scheme : ExplicitScheme) (y : Vec α) (dt : α) (slopes : List (Vec α))
    (left : Nat) (samples : List (Sample α)) : List (Vec α) → Ending α → Prop
  | exhausted {buffers : List (Vec α)} (hall : samples.length = left)
      (hdone : ∀ sample ∈ samples, sample.ending = .done)
      (hbuffers : buffers = slopes ++ slopesOf samples) :
      Stopped scheme y dt slopes left samples buffers .done
  | interrupted {buffers : List (Vec α)} {last : Sample α} {ending : Ending α}
      (hlast : last ∈ samples.getLast?) (hending : last.ending = ending)
      (hundone : ending ≠ .done) :
      Stopped scheme y dt slopes left samples buffers ending
  | unstaged {buffers : List (Vec α)} {cause : Fault} (hsome : samples.length < left)
      (hdone : ∀ sample ∈ samples, sample.ending = .done)
      (hstate : stageState scheme y dt (slopes ++ slopesOf samples) = .error cause) :
      Stopped scheme y dt slopes left samples buffers (.fault cause)

/-- How a step that made the evaluations ends, and the live state it leaves. -/
inductive Concluded (scheme : ExplicitScheme) (live : Vec α) (dt : α) (step : Nat)
    (samples : List (Sample α)) : Ending α → Vec α → Prop
  | completed {next : Vec α} (hall : samples.length = scheme.stages)
      (hdone : ∀ sample ∈ samples, sample.ending = .done)
      (hnext : finalState scheme live dt (slopesOf samples) = .ok next) :
      Concluded scheme live dt step samples .done next
  | failed {last : Sample α} {cause : Failure α} (hlast : last ∈ samples.getLast?)
      (hcause : last.ending = .failed cause) :
      Concluded scheme live dt step samples (.failed (cause.asTimeStepFailure step dt)) live
  | abandoned {last : Sample α} {cause : Fault} (hlast : last ∈ samples.getLast?)
      (hcause : last.ending = .fault cause) :
      Concluded scheme live dt step samples (.fault cause) live
  | unstaged {cause : Fault} (hsome : samples.length < scheme.stages)
      (hdone : ∀ sample ∈ samples, sample.ending = .done)
      (hstate : stageState scheme live dt (slopesOf samples) = .error cause) :
      Concluded scheme live dt step samples (.fault cause) live
  | unfinished {cause : Fault} (hall : samples.length = scheme.stages)
      (hdone : ∀ sample ∈ samples, sample.ending = .done)
      (hstate : finalState scheme live dt (slopesOf samples) = .error cause) :
      Concluded scheme live dt step samples (.fault cause) live

section Recorded

variable {scheme : ExplicitScheme} {y : Vec α} {time dt : α} {slopes : List (Vec α)}

theorem Ordered.nil : Ordered scheme y time dt slopes [] := by
  intro before sample after h
  simp at h

/-- An evaluation that was not completed, and no other. -/
theorem Ordered.single {state : Vec α} {outcome : Outcome α (Vec α)}
    (hstate : stageState scheme y dt slopes = .ok state) :
    Ordered scheme y time dt slopes
      [.of state (stageTime scheme time dt slopes.length) outcome] := by
  intro before sample after h
  obtain ⟨rfl, hlast⟩ | ⟨rest, -, hafter⟩ := List.append_eq_cons_iff.1 h.symm
  · obtain ⟨rfl, rfl⟩ := List.cons.inj hlast
    refine ⟨rfl, ?_, fun _ => rfl⟩
    rw [slopesOf, List.filterMap_nil, List.append_nil]
    exact hstate
  · simp at hafter

/-- A completed evaluation, before the stages that follow. -/
theorem Ordered.cons {state slope : Vec α} {samples : List (Sample α)}
    (hstate : stageState scheme y dt slopes = .ok state)
    (hrest : Ordered scheme y time dt (slopes ++ [slope]) samples) :
    Ordered scheme y time dt slopes
      (.of state (stageTime scheme time dt slopes.length) (.done slope) :: samples) := by
  intro before sample after h
  cases before with
  | nil =>
      obtain ⟨rfl, rfl⟩ := List.cons.inj h
      refine ⟨rfl, ?_, fun hundone => absurd rfl hundone⟩
      rw [slopesOf, List.filterMap_nil, List.append_nil]
      exact hstate
  | cons first before =>
      obtain ⟨rfl, rfl⟩ := List.cons.inj h
      obtain ⟨htime, hat, hlast⟩ := hrest before sample after rfl
      refine ⟨?_, ?_, hlast⟩
      · rw [htime, List.length_append, List.length_singleton, List.length_cons, Nat.add_assoc,
          Nat.add_comm 1]
      · rw [List.append_assoc] at hat
        exact hat

theorem Stopped.cons {state slope : Vec α} {left : Nat} {samples : List (Sample α)}
    {buffers : List (Vec α)} {ending : Ending α} {time : α}
    (h : Stopped scheme y dt (slopes ++ [slope]) left samples buffers ending) :
    Stopped scheme y dt slopes (left + 1) (.of state time (.done slope) :: samples) buffers
      ending := by
  have hslopes : slopes ++ slopesOf (.of state time (.done slope) :: samples) =
      slopes ++ [slope] ++ slopesOf samples := by
    rw [List.append_assoc]
    rfl
  cases h with
  | exhausted hall hdone hbuffers =>
      rw [← hslopes] at hbuffers
      exact .exhausted (congrArg Nat.succ hall) (List.forall_mem_cons.2 ⟨rfl, hdone⟩) hbuffers
  | interrupted hlast hending hundone =>
      refine .interrupted ?_ hending hundone
      rw [List.getLast?_cons, Option.mem_def.1 hlast]
      rfl
  | unstaged hsome hdone hstate =>
      rw [← hslopes] at hstate
      exact .unstaged (Nat.succ_lt_succ hsome) (List.forall_mem_cons.2 ⟨rfl, hdone⟩) hstate

end Recorded

theorem evaluateStages_samples (system : ContinuousSystem σ α) (scheme : ExplicitScheme)
    (y : Vec α) (time dt : α) (buffers slopes : List (Vec α)) :
    Logs (evaluateStages system.sampled scheme y time dt buffers slopes) fun samples outcome =>
      Ordered scheme y time dt slopes samples ∧
        Stopped scheme y dt slopes buffers.length samples outcome.value outcome.ending := by
  induction buffers generalizing slopes with
  | nil =>
      exact .pure ⟨.nil, .exhausted rfl (by simp) (List.append_nil slopes).symm⟩
  | cons buffer buffers ih =>
      unfold evaluateStages
      cases hstate : stageState scheme y dt slopes with
      | error cause =>
          refine .pure ⟨.nil, .unstaged (Nat.succ_pos _) (by simp) ?_⟩
          rw [slopesOf, List.filterMap_nil, List.append_nil]
          exact hstate
      | ok state =>
          refine (system.velocity_samples ..).bind ?_
          rintro ⟨slope, ending⟩ _ rfl
          cases ending with
          | done =>
              refine (ih _).weaken fun samples outcome hsamples => ?_
              exact ⟨hsamples.1.cons hstate, hsamples.2.cons⟩
          | failed cause => exact .pure ⟨.single hstate, .interrupted rfl rfl (by simp)⟩
          | fault cause => exact .pure ⟨.single hstate, .interrupted rfl rfl (by simp)⟩

theorem attempt_samples [Journal α σ] (system : ContinuousSystem σ α) {stepper : ExplicitStepper α}
    (hstages : stepper.slopes.length = stepper.scheme.stages) (live : Vec α) (time dt : α)
    (step : Nat) :
    Logs (attempt system.sampled stepper live time dt step) fun samples outcome =>
      Ordered stepper.scheme live time dt [] samples ∧
        Concluded stepper.scheme live dt step samples outcome.ending outcome.value.2 := by
  refine (Logs.note _).silently fun _ => (evaluateStages_samples ..).bind ?_
  rintro ⟨slopes, ending⟩ samples ⟨hordered, hstopped⟩
  rw [hstages] at hstopped
  refine Logs.weaken (Q := fun more outcome => more = [] ∧
    Concluded stepper.scheme live dt step samples outcome.ending outcome.value.2) ?_ ?_
  · cases hstopped with
    | exhausted hall hdone hbuffers =>
        obtain rfl : slopes = slopesOf samples := hbuffers
        dsimp only
        cases hnext : finalState stepper.scheme live dt (slopesOf samples) with
        | ok next => exact .pure ⟨rfl, .completed hall hdone hnext⟩
        | error cause => exact .pure ⟨rfl, .unfinished hall hdone hnext⟩
    | interrupted hlast hending hundone =>
        cases ending with
        | done => exact absurd rfl hundone
        | failed cause => exact .pure ⟨rfl, .failed hlast hending⟩
        | fault cause => exact .pure ⟨rfl, .abandoned hlast hending⟩
    | unstaged hsome hdone hstate => exact .pure ⟨rfl, .unstaged hsome hdone hstate⟩
  · rintro _ outcome ⟨rfl, hconcluded⟩
    rw [List.append_nil]
    exact ⟨hordered, hconcluded⟩

end ExplicitStepper

end TimeStepping
