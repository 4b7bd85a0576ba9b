import TimeStepping.Proofs.Assertions
import TimeStepping.Run.Prescribed
import TimeStepping.Run.Retrying

/-!
# Runs in tandem

Two runs whose callbacks correspond make the same steps and end alike.  What
corresponds is a relation between the live states and environments of the two
runs, indexed by the number of steps accepted: a completed step leads to the next
index, and everything else keeps the index.
-/

namespace TimeStepping

variable {σ σ' τ α β γ γ' : Type}

/-- A callback of a stepper's user, who does not see the stepper. -/
def Run.Policy.beside (τ : Type) (policy : Policy σ α β) : Policy (τ × σ) α β :=
  fun step time => besides τ (policy step time)

def Run.Observer.beside (τ : Type) (observer : Observer σ α) : Observer (τ × σ) α :=
  fun step time live => besides τ (observer step time live)

/-! ## Correspondences -/

/-- A relation between the live states and environments of two runs that have
accepted the given number of steps. -/
abbrev Correspondence (σ σ' α : Type) := Nat → Vec α × σ → Vec α × σ' → Prop

/-- Environments that correspond beside the given live states. -/
abbrev Correspondence.Beside (L : Correspondence σ σ' α) (accepted : Nat) (live live' : Vec α) :
    σ → σ' → Prop :=
  fun env env' => L accepted (live, env) (live', env')

/-- Corresponding steppers end a step alike, whatever its time and length. -/
structure Steppable.Tandem (L : Correspondence σ σ' α) (first : Steppable σ α)
    (second : Steppable σ' α) : Prop where
  step (accepted : Nat) (live live' : Vec α) (time dt : α) :
    Parallel (L.Beside accepted live live') (first.step live time dt (accepted + 1))
      (second.step live' time dt (accepted + 1))
      fun outcome outcome' env env' => outcome.ending = outcome'.ending ∧
        L.Beside (if outcome.ending.isDone then accepted + 1 else accepted) outcome.value
          outcome'.value env env'

theorem Steppable.Tandem.bind {L : Correspondence σ σ' α} {first : Steppable σ α}
    {second : Steppable σ' α} (h : first.Tandem L second) {accepted : Nat} {live live' : Vec α}
    {time dt : α} {next : Outcome α (Vec α) → StateM σ γ}
    {next' : Outcome α (Vec α) → StateM σ' γ'} {R : γ → γ' → σ → σ' → Prop}
    (hdone : ∀ value value', Parallel (L.Beside (accepted + 1) value value')
      (next ⟨value, .done⟩) (next' ⟨value', .done⟩) R)
    (hstopped : ∀ value value' ending, ending.isDone = false →
      Parallel (L.Beside accepted value value') (next ⟨value, ending⟩) (next' ⟨value', ending⟩) R) :
    Parallel (L.Beside accepted live live')
      (first.step live time dt (accepted + 1) >>= next)
      (second.step live' time dt (accepted + 1) >>= next') R := by
  refine (h.step accepted live live' time dt).bind ?_
  rintro ⟨value, ending⟩ ⟨value', ending'⟩
  constructor
  rintro env env' ⟨rfl, hafter⟩
  cases hending : ending.isDone with
  | false =>
      exact (hstopped value value' _ hending).holds env env' (by simpa [hending] using hafter)
  | true =>
      obtain rfl := Ending.isDone_iff.1 hending
      exact (hdone value value').holds env env' hafter

namespace Run

/-- Corresponding policies give the same answers. -/
structure Policy.Tandem (L : Correspondence σ σ' α) (first : Policy σ α β)
    (second : Policy σ' α β) : Prop where
  ask (accepted : Nat) (live live' : Vec α) (time : α) :
    Parallel (L.Beside accepted live live') (first (accepted + 1) time)
      (second (accepted + 1) time)
      fun answer answer' env env' => answer = answer' ∧ L.Beside accepted live live' env env'

theorem Policy.Tandem.bind {L : Correspondence σ σ' α} {first : Policy σ α β}
    {second : Policy σ' α β} (h : first.Tandem L second) {accepted : Nat} {live live' : Vec α}
    {time : α} {next : β → StateM σ γ} {next' : β → StateM σ' γ'} {R : γ → γ' → σ → σ' → Prop}
    (hnext : ∀ answer, Parallel (L.Beside accepted live live') (next answer) (next' answer) R) :
    Parallel (L.Beside accepted live live') (first (accepted + 1) time >>= next)
      (second (accepted + 1) time >>= next') R := by
  refine (h.ask accepted live live' time).bind fun answer answer' => ?_
  constructor
  rintro env env' ⟨rfl, hafter⟩
  exact (hnext answer).holds env env' hafter

structure Observer.Tandem (L : Correspondence σ σ' α) (first : Observer σ α)
    (second : Observer σ' α) : Prop where
  observe (accepted : Nat) (live live' : Vec α) (time : α) :
    Parallel (L.Beside accepted live live') (first accepted time live)
      (second accepted time live') fun _ _ => L.Beside accepted live live'

/-- The events of a run keep the correspondence. -/
structure NotesTandem [Journal α σ] [Journal α σ'] (L : Correspondence σ σ' α) : Prop where
  note (accepted : Nat) (live live' : Vec α) (event : Event α) :
    Parallel (L.Beside accepted live live') (note event : StateM σ Unit)
      (note event : StateM σ' Unit) fun _ _ => L.Beside accepted live live'

/-- The two runs ended alike, and correspond after some number of accepted steps. -/
def EndAlike (L : Correspondence σ σ' α) (first second : Run α β) (env : σ) (env' : σ') : Prop :=
  first.ending = second.ending ∧ ∃ accepted, L.Beside accepted first.live second.live env env'

theorem endAlike {L : Correspondence σ σ' α} (accepted : Nat) (live live' : Vec α)
    (ending : RunEnding α β) :
    Parallel (L.Beside accepted live live') (pure ⟨live, ending⟩) (pure ⟨live', ending⟩)
      (EndAlike L) :=
  .pure fun _ _ h => ⟨rfl, accepted, h⟩

/-- The live state is the same, and so is the environment but for what the first
run keeps in front of it. -/
def behind (τ : Type) : Correspondence (τ × σ) σ α :=
  fun _ first second => first.1 = second.1 ∧ first.2.2 = second.2

theorem stepper_behind {stepper : Steppable (τ × σ) α} {plain : Steppable σ α}
    (h : ∀ live time dt step,
      ActsAs (stepper.step live time dt step) (plain.step live time dt step)) :
    stepper.Tandem (behind τ) plain := by
  constructor
  intro accepted live live' time dt
  constructor
  rintro ⟨front, env⟩ env' ⟨rfl, rfl⟩
  have hsame := (h live time dt (accepted + 1)).eq (front, env)
  exact ⟨congrArg (·.1.ending) hsame, congrArg (·.1.value) hsame, congrArg (·.2) hsame⟩

theorem policy_behind {policy : Policy (τ × σ) α β} {plain : Policy σ α β}
    (h : ∀ step time, ActsAs (policy step time) (plain step time)) :
    policy.Tandem (behind τ) plain := by
  constructor
  intro accepted live live' time
  constructor
  rintro ⟨front, env⟩ env' ⟨rfl, rfl⟩
  have hsame := (h (accepted + 1) time).eq (front, env)
  exact ⟨congrArg (·.1) hsame, rfl, congrArg (·.2) hsame⟩

theorem observer_behind {observer : Observer (τ × σ) α} {plain : Observer σ α}
    (h : ∀ step time live, ActsAs (observer step time live) (plain step time live)) :
    observer.Tandem (behind τ) plain := by
  constructor
  intro accepted live live' time
  constructor
  rintro ⟨front, env⟩ env' ⟨rfl, rfl⟩
  exact ⟨rfl, congrArg (·.2) ((h accepted time live).eq (front, env))⟩

theorem notes_behind [Journal α σ] :
    NotesTandem (behind τ : Correspondence (τ × σ) σ α) := by
  constructor
  intro accepted live live' event
  constructor
  rintro ⟨front, env⟩ env' ⟨rfl, rfl⟩
  exact ⟨rfl, rfl⟩

theorem eq_of_live_of_ending {first second : Run α β} (hlive : first.live = second.live)
    (hending : first.ending = second.ending) : first = second := by
  cases first
  cases second
  exact congr (congrArg Run.mk hlive) hending

theorem actsAs_of_behind {live : Vec α} {first : StateM (τ × σ) (Run α β)}
    {second : StateM σ (Run α β)}
    (h : Parallel ((behind τ).Beside 0 live live) first second (EndAlike (behind τ))) :
    ActsAs first second := by
  constructor
  intro env
  obtain ⟨hending, _, hlive, henv⟩ := h.holds env env.2 ⟨rfl, rfl⟩
  exact Prod.ext (eq_of_live_of_ending hlive hending) henv

/-- How many steps are accepted once the attempts at the next one are over. -/
def acceptedAfter (accepted : Nat) : RunEnding α β → Nat
  | .finished _ => accepted + 1
  | _ => accepted

/-- What the attempts at the step after `accepted` steps have in common in two runs. -/
def SettleAlike (L : Correspondence σ σ' α) (accepted : Nat) (first second : Run α α) (env : σ)
    (env' : σ') : Prop :=
  first.ending = second.ending ∧
    L.Beside (acceptedAfter accepted first.ending) first.live second.live env env'

/-- Two runs go on alike if they do so after an accepted step and end alike without one. -/
theorem SettleAlike.bind {L : Correspondence σ σ' α} {accepted : Nat} {first : StateM σ (Run α α)}
    {second : StateM σ' (Run α α)} {live live' : Vec α}
    (h : Parallel (L.Beside accepted live live') first second (SettleAlike L accepted))
    {next : Run α α → StateM σ γ} {next' : Run α α → StateM σ' γ'} {R : γ → γ' → σ → σ' → Prop}
    (hfinished : ∀ value value' dt, Parallel (L.Beside (accepted + 1) value value')
      (next ⟨value, .finished dt⟩) (next' ⟨value', .finished dt⟩) R)
    (hstopped : ∀ value value' ending, (∀ dt, ending ≠ .finished dt) →
      Parallel (L.Beside accepted value value') (next ⟨value, ending⟩) (next' ⟨value', ending⟩) R) :
    Parallel (L.Beside accepted live live') (first >>= next) (second >>= next') R := by
  refine h.bind ?_
  rintro ⟨value, ending⟩ ⟨value', ending'⟩
  constructor
  rintro env env' ⟨rfl, hafter⟩
  cases ending with
  | finished dt => exact (hfinished value value' dt).holds env env' hafter
  | failed cause => exact (hstopped value value' _ (by simp)).holds env env' hafter
  | fault cause => exact (hstopped value value' _ (by simp)).holds env env' hafter
  | unfinished => exact (hstopped value value' _ (by simp)).holds env env' hafter

variable [Scalar α] {L : Correspondence σ σ' α} {stepper : Steppable σ α}
  {stepper' : Steppable σ' α} {observer : Observer σ α} {observer' : Observer σ' α}

/-! ## Prescribed time steps -/

theorem stepsFrom_tandem (hstepper : stepper.Tandem L stepper')
    (hobserver : observer.Tandem L observer') (start dt : α) (remaining accepted : Nat) (time : α)
    (live live' : Vec α) :
    Parallel (L.Beside accepted live live')
      (stepsFrom stepper observer start dt remaining accepted time live)
      (stepsFrom stepper' observer' start dt remaining accepted time live') (EndAlike L) := by
  induction remaining generalizing accepted time live live' with
  | zero => exact endAlike ..
  | succ remaining ih =>
      refine hstepper.bind (fun value value' => ?_) fun value value' ending hending => ?_
      · exact (hobserver.observe ..).bind fun _ _ => ih ..
      · cases ending with
        | done => cases hending
        | failed cause => exact endAlike ..
        | fault cause => exact endAlike ..

theorem steps_tandem (hstepper : stepper.Tandem L stepper')
    (hobserver : observer.Tandem L observer') (start dt : α) (count : Nat) (live live' : Vec α) :
    Parallel (L.Beside 0 live live') (steps stepper observer start dt count live)
      (steps stepper' observer' start dt count live') (EndAlike L) := by
  unfold steps
  cases TimeGrid.checkDt dt 1 with
  | error cause => exact endAlike ..
  | ok _ => exact (hobserver.observe ..).bind fun _ _ => stepsFrom_tandem hstepper hobserver ..

theorem toTimeFrom_tandem {policy : Policy σ α α} {policy' : Policy σ' α α}
    (hstepper : stepper.Tandem L stepper') (hpolicy : policy.Tandem L policy')
    (hobserver : observer.Tandem L observer') (final : α) (fuel accepted : Nat) (time : α)
    (live live' : Vec α) :
    Parallel (L.Beside accepted live live')
      (toTimeFrom stepper policy observer final fuel accepted time live)
      (toTimeFrom stepper' policy' observer' final fuel accepted time live') (EndAlike L) := by
  induction fuel generalizing accepted time live live' with
  | zero => exact endAlike ..
  | succ fuel ih =>
      unfold toTimeFrom
      split
      · refine hpolicy.bind fun dt => ?_
        cases TimeGrid.checkDt dt (accepted + 1) with
        | error cause => exact endAlike ..
        | ok _ =>
            refine hstepper.bind (fun value value' => ?_) fun value value' ending hending => ?_
            · exact (hobserver.observe ..).bind fun _ _ => ih ..
            · cases ending with
              | done => cases hending
              | failed cause => exact endAlike ..
              | fault cause => exact endAlike ..
      · exact endAlike ..

theorem toTime_tandem {policy : Policy σ α α} {policy' : Policy σ' α α}
    (hstepper : stepper.Tandem L stepper') (hpolicy : policy.Tandem L policy')
    (hobserver : observer.Tandem L observer') (fuel : Nat) (start final : α)
    (live live' : Vec α) :
    Parallel (L.Beside 0 live live') (toTime fuel stepper policy observer start final live)
      (toTime fuel stepper' policy' observer' start final live') (EndAlike L) := by
  unfold toTime
  cases TimeGrid.checkInterval start final with
  | error cause => exact endAlike ..
  | ok _ =>
      exact (hobserver.observe ..).bind fun _ _ =>
        toTimeFrom_tandem hstepper hpolicy hobserver ..

/-! ## Retries -/

variable [Journal α σ] [Journal α σ']

theorem retryFrom_tandem (hstepper : stepper.Tandem L stepper') (hnotes : NotesTandem L)
    (control : StepControl α) (time : α) (accepted fuel : Nat) (dt : α) (live live' : Vec α) :
    Parallel (L.Beside accepted live live')
      (retryFrom stepper control time (accepted + 1) fuel dt live)
      (retryFrom stepper' control time (accepted + 1) fuel dt live')
      (SettleAlike L accepted) := by
  induction fuel generalizing dt live live' with
  | zero => exact .pure fun env env' h => ⟨rfl, h⟩
  | succ fuel ih =>
      refine hstepper.bind (fun value value' => ?_) fun value value' ending hending => ?_
      · exact .pure fun env env' h => ⟨rfl, h⟩
      · cases ending with
        | done => cases hending
        | fault cause => exact .pure fun env env' h => ⟨rfl, h⟩
        | failed cause =>
            dsimp only
            split
            · split
              · exact (hnotes.note ..).bind fun _ _ => .pure fun env env' h => ⟨rfl, h⟩
              · exact (hnotes.note ..).bind fun _ _ => ih ..
            · exact .pure fun env env' h => ⟨rfl, h⟩

theorem stepRetrying_tandem (hstepper : stepper.Tandem L stepper') (hnotes : NotesTandem L)
    (control : StepControl α) (limit : Option α) (time : α) (accepted fuel : Nat)
    (live live' : Vec α) :
    Parallel (L.Beside accepted live live')
      (stepRetrying fuel stepper control limit time (accepted + 1) live)
      (stepRetrying fuel stepper' control limit time (accepted + 1) live')
      (SettleAlike L accepted) := by
  unfold stepRetrying
  cases control.validate with
  | error cause => exact .pure fun env env' h => ⟨rfl, h⟩
  | ok _ => exact retryFrom_tandem hstepper hnotes ..

variable {control : Policy σ α (StepControl α)} {control' : Policy σ' α (StepControl α)}

theorem stepsRetryingFrom_tandem (hstepper : stepper.Tandem L stepper')
    (hcontrol : control.Tandem L control') (hobserver : observer.Tandem L observer')
    (hnotes : NotesTandem L) (fuel remaining accepted : Nat) (time : α) (live live' : Vec α) :
    Parallel (L.Beside accepted live live')
      (stepsRetryingFrom fuel stepper control observer remaining accepted time live)
      (stepsRetryingFrom fuel stepper' control' observer' remaining accepted time live')
      (EndAlike L) := by
  induction remaining generalizing accepted time live live' with
  | zero => exact endAlike ..
  | succ remaining ih =>
      refine hcontrol.bind fun sizes => ?_
      refine SettleAlike.bind (stepRetrying_tandem hstepper hnotes ..)
        (fun value value' dt => ?_) fun value value' ending hending => ?_
      · exact (hobserver.observe ..).bind fun _ _ => ih ..
      · cases ending with
        | finished dt => exact absurd rfl (hending dt)
        | failed cause => exact endAlike ..
        | fault cause => exact endAlike ..
        | unfinished => exact endAlike ..

theorem stepsRetrying_tandem (hstepper : stepper.Tandem L stepper')
    (hcontrol : control.Tandem L control') (hobserver : observer.Tandem L observer')
    (hnotes : NotesTandem L) (fuel : Nat) (start : α) (count : Nat) (live live' : Vec α) :
    Parallel (L.Beside 0 live live') (stepsRetrying fuel stepper control observer start count live)
      (stepsRetrying fuel stepper' control' observer' start count live') (EndAlike L) :=
  (hobserver.observe ..).bind fun _ _ =>
    stepsRetryingFrom_tandem hstepper hcontrol hobserver hnotes ..

theorem toTimeRetryingFrom_tandem (hstepper : stepper.Tandem L stepper')
    (hcontrol : control.Tandem L control') (hobserver : observer.Tandem L observer')
    (hnotes : NotesTandem L) (retries : Nat) (final : α) (fuel accepted : Nat) (time : α)
    (live live' : Vec α) :
    Parallel (L.Beside accepted live live')
      (toTimeRetryingFrom retries stepper control observer final fuel accepted time live)
      (toTimeRetryingFrom retries stepper' control' observer' final fuel accepted time live')
      (EndAlike L) := by
  induction fuel generalizing accepted time live live' with
  | zero => exact endAlike ..
  | succ fuel ih =>
      unfold toTimeRetryingFrom
      split
      · refine hcontrol.bind fun sizes => ?_
        refine SettleAlike.bind (stepRetrying_tandem hstepper hnotes ..)
          (fun value value' dt => ?_) fun value value' ending hending => ?_
        · exact (hobserver.observe ..).bind fun _ _ => ih ..
        · cases ending with
          | finished dt => exact absurd rfl (hending dt)
          | failed cause => exact endAlike ..
          | fault cause => exact endAlike ..
          | unfinished => exact endAlike ..
      · exact endAlike ..

theorem toTimeRetrying_tandem (hstepper : stepper.Tandem L stepper')
    (hcontrol : control.Tandem L control') (hobserver : observer.Tandem L observer')
    (hnotes : NotesTandem L) (fuel : Nat) (start final : α) (live live' : Vec α) :
    Parallel (L.Beside 0 live live')
      (toTimeRetrying fuel stepper control observer start final live)
      (toTimeRetrying fuel stepper' control' observer' start final live') (EndAlike L) := by
  unfold toTimeRetrying
  cases TimeGrid.checkInterval start final with
  | error cause => exact endAlike ..
  | ok _ =>
      exact (hobserver.observe ..).bind fun _ _ =>
        toTimeRetryingFrom_tandem hstepper hcontrol hobserver hnotes ..

end Run

end TimeStepping
