import TimeStepping.Proofs.Run.Course

/-!
# The order of what a run does

Whatever its plan is, a run shows the steps from 0 on without a gap, completes each of
them once before it shows it, and if it asks at all, asks once about each step before it
attempts it.  All this is read off the trace of a run under way; how little the last deed
of a run that has ended adds to it is said by `Ended.last_deed`.
-/

namespace TimeStepping

namespace Run

open Trace

variable {σ α β γ : Type}

/-- The steps accepted once a run comes to its turn, the last of which may not be shown yet. -/
def Turn.accepted (step : Nat) : Turn α β → Nat
  | .observe .. => step + 1
  | _ => step

/-- The steps asked about once a run comes to its turn. -/
def Turn.asked (step : Nat) : Turn α β → Nat
  | .begin => step
  | _ => step + 1

theorem range'_next (step : Nat) : List.range' 1 (step + 1) = List.range' 1 step ++ [step + 1] := by
  rw [List.range'_1_concat, Nat.add_comm 1]

variable [Journal α σ] {plan : Plan σ α β γ} {start : α} {initial : Vec α} {env₀ : σ}
  {trace : Trace σ α β} {here : Position σ α} {turn : Turn α β}

namespace Course

/-! ## What is shown -/

theorem shown_steps (h : Course plan start initial env₀ trace here turn) :
    trace.shown.map (·.1) = List.range (here.step + 1) := by
  induction h with
  | opened => rfl
  | unasked before hahead h ih => exact ih
  | asked before hahead h hcheck ih => rwa [shown_asked]
  | retried before hfailed hagain ih => rwa [shown_attempted]
  | accepted before hdone ih => rwa [shown_attempted]
  | observed before ih =>
      rw [shown_observed, List.map_append, ih]
      exact List.range_succ.symm

theorem first_shown (h : Course plan start initial env₀ trace here turn) :
    trace.shown.head? = some (0, start, initial) := by
  induction h with
  | opened => rfl
  | unasked before hahead h ih => exact ih
  | asked before hahead h hcheck ih => rwa [shown_asked]
  | retried before hfailed hagain ih => rwa [shown_attempted]
  | accepted before hdone ih => rwa [shown_attempted]
  | observed before ih => rw [shown_observed, List.head?_append, ih, Option.some_or]

/-- What was shown last; where a step begins, the state is still the live one. -/
theorem last_shown (h : Course plan start initial env₀ trace here turn) :
    ∃ live, trace.shown.getLast? = some (here.step, here.time, live) ∧
      (turn = .begin → live = here.live) := by
  induction h with
  | opened => exact ⟨initial, rfl, fun _ => rfl⟩
  | unasked before hahead h ih =>
      obtain ⟨live, hlast, -⟩ := ih
      exact ⟨live, hlast, nofun⟩
  | asked before hahead h hcheck ih =>
      obtain ⟨live, hlast, -⟩ := ih
      exact ⟨live, by rwa [shown_asked], nofun⟩
  | retried before hfailed hagain ih =>
      obtain ⟨live, hlast, -⟩ := ih
      exact ⟨live, by rwa [shown_attempted], nofun⟩
  | accepted before hdone ih =>
      obtain ⟨live, hlast, -⟩ := ih
      exact ⟨live, by rwa [shown_attempted], nofun⟩
  | @observed trace here answer dt before ih =>
      exact ⟨here.live, by rw [shown_observed, List.getLast?_concat], fun _ => rfl⟩

theorem time_eq_start (h : Course plan start initial env₀ trace here turn) (hstep : here.step = 0) :
    here.time = start := by
  induction h with
  | opened => rfl
  | unasked before hahead h ih => exact ih hstep
  | asked before hahead h hcheck ih => exact ih hstep
  | retried before hfailed hagain ih => exact ih hstep
  | accepted before hdone ih => exact ih hstep
  | observed before ih => cases hstep

/-! ## What is completed and asked -/

theorem accepted_steps (h : Course plan start initial env₀ trace here turn) :
    trace.acceptances.map (·.step) = List.range' 1 (turn.accepted here.step) := by
  induction h with
  | opened => rfl
  | unasked before hahead h ih => exact ih
  | asked before hahead h hcheck ih => rwa [acceptances_asked]
  | retried before hfailed hagain ih => rwa [acceptances_of_undone _ (by simp [hfailed])]
  | @accepted trace here answer dt before hdone ih =>
      rw [acceptances_of_done _ hdone, List.map_append, ih]
      exact (range'_next here.step).symm
  | observed before ih => rwa [acceptances_observed]

theorem asked_steps (hasks : plan.standing = none)
    (h : Course plan start initial env₀ trace here turn) :
    trace.answers.map (·.1) = List.range' 1 (turn.asked here.step) := by
  induction h with
  | opened => rfl
  | unasked before hahead h ih => simp [hasks] at h
  | @asked trace here before hahead h hcheck ih =>
      rw [answers_asked, List.map_append, ih]
      exact (range'_next here.step).symm
  | retried before hfailed hagain ih => rwa [answers_attempted]
  | accepted before hdone ih => rwa [answers_attempted]
  | observed before ih => rwa [answers_observed]

/-- An attempt is made under the answer about its step that was asked for last. -/
theorem last_answer (hasks : plan.standing = none)
    (h : Course plan start initial env₀ trace here turn) {answer : β} {dt : α}
    (hturn : turn = .attempt answer dt) :
    trace.answers.getLast? = some (here.step + 1, here.time, answer) := by
  induction h generalizing dt with
  | opened => cases hturn
  | unasked before hahead h ih => simp [hasks] at h
  | asked before hahead h hcheck ih =>
      cases hturn
      simp
  | retried before hfailed hagain ih =>
      cases hturn
      rw [answers_attempted]
      exact ih rfl
  | accepted before hdone ih => cases hturn
  | observed before ih => cases hturn

end Course

/-! ## Runs that ended -/

variable {live : Vec α} {env : σ} {ending : RunEnding α γ}

/-- The last deed of a run shows nothing. -/
theorem Ended.shown_course (h : Ended plan start initial env₀ trace live env ending) :
    ∃ before here turn, Course plan start initial env₀ before here turn ∧
      trace.shown = before.shown := by
  obtain ⟨before, here, turn, hcourse, -, rfl | ⟨-, rfl⟩ | ⟨answer, dt, -, -, rfl⟩⟩ := h.last_deed
  · exact ⟨trace, here, turn, hcourse, rfl⟩
  · exact ⟨before, here, turn, hcourse, shown_asked ..⟩
  · exact ⟨before, here, turn, hcourse, shown_attempted ..⟩

theorem Ended.asked_steps (hasks : plan.standing = none)
    (h : Ended plan start initial env₀ trace live env ending) :
    ∃ count, trace.answers.map (·.1) = List.range' 1 count := by
  obtain ⟨before, here, turn, hcourse, -, rfl | ⟨rfl, rfl⟩ | ⟨answer, dt, -, -, rfl⟩⟩ := h.last_deed
  · exact ⟨_, hcourse.asked_steps hasks⟩
  · refine ⟨here.step + 1, ?_⟩
    rw [answers_asked, List.map_append, hcourse.asked_steps hasks]
    exact (range'_next here.step).symm
  · rw [answers_attempted]
    exact ⟨_, hcourse.asked_steps hasks⟩

end Run

end TimeStepping
