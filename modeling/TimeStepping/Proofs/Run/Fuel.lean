import TimeStepping.Run.Prescribed
import TimeStepping.Run.Retrying
import TimeStepping.Proofs.Assertions

/-!
# More fuel

Loops that their arguments do not bound are given fuel.  A run that does not use it
up does the same with any more of it: it leaves the same result in the same
environment.  So what such a run does is a property of the loop, and its fuel is
no more than a bound on the number of turns.
-/

namespace TimeStepping

namespace Run

variable {σ α β γ : Type}

/-- The second run goes on where the first one is cut off, and is the first one
otherwise. -/
structure Prolongs (short long : StateM σ (Run α β)) : Prop where
  eq (env : σ) (h : (short env).1.ending ≠ .unfinished) : long env = short env

namespace Prolongs

theorem refl (action : StateM σ (Run α β)) : Prolongs action action :=
  ⟨fun _ _ => rfl⟩

/-- A run that is cut off at once is prolonged by any other. -/
theorem of_unfinished (live : Vec α) (long : StateM σ (Run α β)) :
    Prolongs (pure ⟨live, .unfinished⟩) long :=
  ⟨fun _ h => absurd rfl h⟩

theorem bind (action : StateM σ γ) {short long : γ → StateM σ (Run α β)}
    (h : ∀ value, Prolongs (short value) (long value)) :
    Prolongs (action >>= short) (action >>= long) :=
  ⟨fun env hended => (h (action env).1).eq (action env).2 hended⟩

/-- A run that starts with another is prolonged with it, if it is cut off where that
one is. -/
theorem bind_run {short long : StateM σ (Run α γ)} {next next' : Run α γ → StateM σ (Run α β)}
    (h : Prolongs short long) (hnext : ∀ run, Prolongs (next run) (next' run))
    (hcut : ∀ live env, (next ⟨live, .unfinished⟩ env).1.ending = .unfinished) :
    Prolongs (short >>= next) (long >>= next') := by
  constructor
  intro env hended
  have hfirst : (short env).1.ending ≠ .unfinished := by
    intro hunfinished
    refine hended ?_
    have hrun : (short env).1 = ⟨(short env).1.live, .unfinished⟩ :=
      congrArg (Run.mk (short env).1.live) hunfinished
    rw [bind_apply, hrun]
    exact hcut ..
  rw [bind_apply, h.eq env hfirst]
  exact (hnext _).eq _ hended

end Prolongs

variable [Scalar α] (stepper : Steppable σ α) (observer : Observer σ α)

theorem toTimeFrom_prolongs (policy : Policy σ α α) (final : α) {fuel fuel' : Nat}
    (h : fuel ≤ fuel') (step : Nat) (time : α) (live : Vec α) :
    Prolongs (toTimeFrom stepper policy observer final fuel step time live)
      (toTimeFrom stepper policy observer final fuel' step time live) := by
  induction fuel generalizing fuel' step time live with
  | zero => exact .of_unfinished ..
  | succ fuel ih =>
      obtain ⟨more, rfl⟩ : ∃ more, fuel' = more + 1 := ⟨fuel' - 1, by omega⟩
      unfold toTimeFrom
      split
      · refine .bind _ fun dt => ?_
        cases TimeGrid.checkDt dt (step + 1) with
        | error cause => exact .refl _
        | ok _ =>
            refine .bind _ fun outcome => ?_
            cases outcome.ending with
            | done => exact .bind _ fun _ => ih (Nat.le_of_succ_le_succ h) ..
            | failed cause => exact .refl _
            | fault cause => exact .refl _
      · exact .refl _

theorem toTime_prolongs (policy : Policy σ α α) (start final : α) {fuel fuel' : Nat}
    (h : fuel ≤ fuel') (live : Vec α) :
    Prolongs (toTime fuel stepper policy observer start final live)
      (toTime fuel' stepper policy observer start final live) := by
  unfold toTime
  cases TimeGrid.checkInterval start final with
  | error cause => exact .refl _
  | ok _ => exact .bind _ fun _ => toTimeFrom_prolongs stepper observer policy final h ..

variable [Journal α σ]

theorem retryFrom_prolongs (control : StepControl α) (time : α) (step : Nat) {fuel fuel' : Nat}
    (h : fuel ≤ fuel') (dt : α) (live : Vec α) :
    Prolongs (retryFrom stepper control time step fuel dt live)
      (retryFrom stepper control time step fuel' dt live) := by
  induction fuel generalizing fuel' dt live with
  | zero => exact .of_unfinished ..
  | succ fuel ih =>
      obtain ⟨more, rfl⟩ : ∃ more, fuel' = more + 1 := ⟨fuel' - 1, by omega⟩
      refine .bind _ fun outcome => ?_
      cases outcome.ending with
      | done => exact .refl _
      | fault cause => exact .refl _
      | failed cause =>
          dsimp only
          split
          · split
            · exact .refl _
            · exact .bind _ fun _ => ih (Nat.le_of_succ_le_succ h) ..
          · exact .refl _

theorem stepRetrying_prolongs (control : StepControl α) (limit : Option α) (time : α) (step : Nat)
    {fuel fuel' : Nat} (h : fuel ≤ fuel') (live : Vec α) :
    Prolongs (stepRetrying fuel stepper control limit time step live)
      (stepRetrying fuel' stepper control limit time step live) := by
  unfold stepRetrying
  cases control.validate with
  | error cause => exact .refl _
  | ok _ => exact retryFrom_prolongs stepper control time step h ..

theorem toTimeRetryingFrom_prolongs (control : Policy σ α (StepControl α)) (final : α)
    {retries retries' fuel fuel' : Nat} (hretries : retries ≤ retries') (h : fuel ≤ fuel')
    (step : Nat) (time : α) (live : Vec α) :
    Prolongs (toTimeRetryingFrom retries stepper control observer final fuel step time live)
      (toTimeRetryingFrom retries' stepper control observer final fuel' step time live) := by
  induction fuel generalizing fuel' step time live with
  | zero => exact .of_unfinished ..
  | succ fuel ih =>
      obtain ⟨more, rfl⟩ : ∃ more, fuel' = more + 1 := ⟨fuel' - 1, by omega⟩
      unfold toTimeRetryingFrom
      split
      · refine .bind _ fun sizes => ?_
        refine (stepRetrying_prolongs stepper sizes _ time _ hretries live).bind_run (fun run => ?_)
          fun _ _ => rfl
        cases run.ending with
        | finished dt => exact .bind _ fun _ => ih (Nat.le_of_succ_le_succ h) ..
        | failed cause => exact .refl _
        | fault cause => exact .refl _
        | unfinished => exact .refl _
      · exact .refl _

theorem toTimeRetrying_prolongs (control : Policy σ α (StepControl α)) (start final : α)
    {fuel fuel' : Nat} (h : fuel ≤ fuel') (live : Vec α) :
    Prolongs (toTimeRetrying fuel stepper control observer start final live)
      (toTimeRetrying fuel' stepper control observer start final live) := by
  unfold toTimeRetrying
  cases TimeGrid.checkInterval start final with
  | error cause => exact .refl _
  | ok _ => exact .bind _ fun _ => toTimeRetryingFrom_prolongs stepper observer control final h h ..

end Run

end TimeStepping
