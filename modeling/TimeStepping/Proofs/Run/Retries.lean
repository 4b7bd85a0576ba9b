import TimeStepping.Proofs.Run.Sequence

/-!
# What follows a failed attempt

In a run that asks before every step, a failed attempt is followed at once by what
the plan says: another attempt at the same step, or the end of the run.  Which of
them and with what depends on the last answer alone.  Main statement:
`Ended.followed`.
-/

namespace TimeStepping

variable {σ α β γ δ : Type}

theorem Trace.concat_split {trace before after : List δ} {deed last : δ}
    (h : trace ++ [last] = before ++ deed :: after) :
    (after = [] ∧ before = trace ∧ deed = last) ∨
      ∃ rest, after = rest ++ [last] ∧ trace = before ++ deed :: rest := by
  obtain rfl | ⟨rest, final, rfl⟩ := List.eq_nil_or_concat after
  · obtain ⟨rfl, hlast⟩ := List.append_inj' h rfl
    exact .inl ⟨rfl, rfl, (List.cons.inj hlast).1.symm⟩
  · have hsplit : trace ++ [last] = (before ++ deed :: rest) ++ [final] := by
      rw [h, List.append_assoc, List.concat_eq_append, List.cons_append]
    obtain ⟨rfl, hlast⟩ := List.append_inj' hsplit rfl
    obtain ⟨rfl, -⟩ := List.cons.inj hlast
    exact .inr ⟨rest, List.concat_eq_append, rfl⟩

namespace Run

open Trace

/-- Every failed attempt has an answer that the run asked for last, and is
followed by an attempt at the same step as the plan says; the last deed instead
has `Pending` of what the plan says. -/
def Followed (plan : Plan σ α β γ) (Pending : Trial σ α → β → Except (Failure α) α → Prop)
    (trace : Trace σ α β) : Prop :=
  ∀ (before : Trace σ α β) trial after cause, trace = before ++ .attempted trial :: after →
    trial.outcome.ending = .failed cause →
      ∃ answer, before.answers.getLast? = some (trial.step, trial.time, answer) ∧
        ((after = [] ∧ Pending trial answer (plan.again trial.step answer trial.dt cause)) ∨
          ∃ next rest, after = .attempted next :: rest ∧ next.step = trial.step ∧
            next.time = trial.time ∧
            plan.again trial.step answer trial.dt cause = .ok next.dt)

namespace Followed

variable {plan : Plan σ α β γ} {trace : Trace σ α β}
  {P Q : Trial σ α → β → Except (Failure α) α → Prop}

theorem nil : Followed plan P [] := by
  intro before trial after cause h
  simp at h

theorem mono (h : Followed plan P trace)
    (himp : ∀ trial answer decision, P trial answer decision → Q trial answer decision) :
    Followed plan Q trace := by
  intro before trial after cause heq hcause
  obtain ⟨answer, hanswer, ⟨hafter, hpending⟩ | hnext⟩ := h before trial after cause heq hcause
  · exact ⟨answer, hanswer, .inl ⟨hafter, himp _ _ _ hpending⟩⟩
  · exact ⟨answer, hanswer, .inr hnext⟩

/-- Add a deed that is what the one before it was waiting for. -/
theorem concat (h : Followed plan P trace) (deed : Deed σ α β)
    (hlast : ∀ trial answer decision, P trial answer decision →
      ∃ next, deed = .attempted next ∧ next.step = trial.step ∧ next.time = trial.time ∧
        decision = .ok next.dt)
    (hnew : ∀ trial cause, deed = .attempted trial → trial.outcome.ending = .failed cause →
      ∃ answer, trace.answers.getLast? = some (trial.step, trial.time, answer) ∧
        Q trial answer (plan.again trial.step answer trial.dt cause)) :
    Followed plan Q (trace ++ [deed]) := by
  intro before trial after cause heq hcause
  obtain ⟨rfl, rfl, hdeed⟩ | ⟨rest, rfl, htrace⟩ := concat_split heq
  · obtain ⟨answer, hanswer, hpending⟩ := hnew trial cause hdeed.symm hcause
    exact ⟨answer, hanswer, .inl ⟨rfl, hpending⟩⟩
  · obtain ⟨answer, hanswer, ⟨rfl, hpending⟩ | ⟨next, more, rfl, hnext⟩⟩ :=
      h before trial rest cause htrace hcause
    · obtain ⟨next, rfl, hnext⟩ := hlast _ _ _ hpending
      exact ⟨answer, hanswer, .inr ⟨next, [], rfl, hnext⟩⟩
    · exact ⟨answer, hanswer, .inr ⟨next, more ++ [deed], rfl, hnext⟩⟩

end Followed

/-! ## Courses -/

/-- The run is about to make the attempt that was decided on. -/
def Awaited (here : Position σ α) (turn : Turn α β) (trial : Trial σ α) (answer : β)
    (decision : Except (Failure α) α) : Prop :=
  ∃ dt, decision = .ok dt ∧ turn = .attempt answer dt ∧ here.step + 1 = trial.step ∧
    here.time = trial.time

theorem Awaited.attempt {plan : Plan σ α β γ} {here : Position σ α} {answer answer' : β} {dt : α}
    {trial : Trial σ α} {decision : Except (Failure α) α}
    (h : Awaited here (.attempt answer dt) trial answer' decision) :
    ∃ next, (.attempted (plan.trial here dt) : Deed σ α β) = .attempted next ∧
      next.step = trial.step ∧ next.time = trial.time ∧ decision = .ok next.dt := by
  obtain ⟨_, hdecision, hturn, hstep, htime⟩ := h
  cases hturn
  exact ⟨_, rfl, hstep, htime, hdecision⟩

/-- The run has ended as was decided, or before it could make the attempt that was
decided on. -/
def Concluded (ending : RunEnding α γ) (_trial : Trial σ α) (_answer : β) :
    Except (Failure α) α → Prop
  | .ok _ => ending = .unfinished
  | .error surfaced => ending = .failed surfaced

variable [Journal α σ] {plan : Plan σ α β γ} {start : α} {initial : Vec α} {env₀ env : σ}
  {trace : Trace σ α β} {here : Position σ α} {turn : Turn α β} {live : Vec α}
  {ending : RunEnding α γ}

/-- The attempts of a run are made by its stepper. -/
theorem Course.trials (h : Course plan start initial env₀ trace here turn) :
    ∀ trial, .attempted trial ∈ trace →
      trial = plan.stepper.trial trial.live trial.time trial.dt trial.step trial.before := by
  induction h with
  | opened => simp
  | unasked before hahead h ih => exact ih
  | asked before hahead h hcheck ih => simpa using ih
  | retried before hfailed hagain ih => simpa [or_imp, forall_and] using ⟨ih, rfl⟩
  | accepted before hdone ih => simpa [or_imp, forall_and] using ⟨ih, rfl⟩
  | observed before ih => simpa using ih

theorem Ended.trials (h : Ended plan start initial env₀ trace live env ending) :
    ∀ trial, .attempted trial ∈ trace →
      trial = plan.stepper.trial trial.live trial.time trial.dt trial.step trial.before := by
  obtain ⟨before, here, turn, hcourse, -, rfl | ⟨-, rfl⟩ | ⟨answer, dt, rfl, -, rfl⟩⟩ := h.last_deed
  · exact hcourse.trials
  · simpa using hcourse.trials
  · simpa [or_imp, forall_and] using ⟨hcourse.trials, rfl⟩

theorem Course.followed (hasks : plan.standing = none)
    (h : Course plan start initial env₀ trace here turn) :
    Followed plan (Awaited here turn) trace := by
  induction h with
  | opened =>
      exact (Followed.nil (P := fun _ _ _ => False)).concat _ (fun _ _ _ => nofun) fun _ _ => nofun
  | unasked before hahead h ih => simp [hasks] at h
  | asked before hahead h hcheck ih =>
      exact ih.concat _ (fun _ _ _ ⟨_, _, hturn, _⟩ => nomatch hturn) fun _ _ => nofun
  | @retried trace here answer dt dt' cause before hfailed hagain ih =>
      refine ih.concat _ (fun _ _ _ hpending => hpending.attempt) ?_
      rintro _ raised ⟨⟩ hraised
      obtain rfl := Ending.failed.inj (hfailed.symm.trans hraised)
      exact ⟨answer, before.last_answer hasks rfl, dt', hagain, rfl, rfl, rfl⟩
  | accepted before hdone ih =>
      refine ih.concat _ (fun _ _ _ hpending => hpending.attempt) ?_
      rintro _ raised ⟨⟩ hraised
      cases hdone.symm.trans hraised
  | observed before ih =>
      exact ih.concat _ (fun _ _ _ ⟨_, _, hturn, _⟩ => nomatch hturn) fun _ _ => nofun

/-- What follows the failed attempts of a run that has ended. -/
theorem Ended.followed (hasks : plan.standing = none)
    (h : Ended plan start initial env₀ trace live env ending) :
    Followed plan (Concluded ending) trace := by
  cases h with
  | finished before hlast =>
      exact (before.followed hasks).mono fun _ _ _ ⟨_, _, hturn, _⟩ => nomatch hturn
  | refused before hahead hcheck =>
      exact (before.followed hasks).concat _ (fun _ _ _ ⟨_, _, hturn, _⟩ => nomatch hturn)
        fun _ _ => nofun
  | @failed trace here answer dt cause surfaced before hfailed hagain =>
      refine (before.followed hasks).concat _ (fun _ _ _ hpending => hpending.attempt) ?_
      rintro _ raised ⟨⟩ hraised
      obtain rfl := Ending.failed.inj (hfailed.symm.trans hraised)
      refine ⟨answer, before.last_answer hasks rfl, ?_⟩
      change Concluded _ _ _ (plan.again (here.step + 1) answer dt cause)
      rw [hagain]
      rfl
  | fault before hfault =>
      refine (before.followed hasks).concat _ (fun _ _ _ hpending => hpending.attempt) ?_
      rintro _ raised ⟨⟩ hraised
      cases hfault.symm.trans hraised
  | unfinished before hturn =>
      refine (before.followed hasks).mono ?_
      rintro _ _ _ ⟨_, rfl, _⟩
      rfl

end Run

end TimeStepping
