import Mathlib.Algebra.Order.Floor.Semiring
import Mathlib.Analysis.SpecialFunctions.Log.Base
import TimeStepping.Proofs.Run.Schedule

/-!
# Runs to a target time end

A run to a target time whose time steps do not fall below a given pace has only so
many steps to make, and under a control that reduces them by no less than a given
factor, only so many attempts at each.  A step can be shorter than the pace, but then
it is the one that arrives.  `Bounded` collects what such a run may do with the time
that is left; it is kept by one step, and by induction on its fuel by the run.
-/

namespace TimeStepping

open TimeGrid

variable {σ β : Type}

/-! ## Counting in a trace -/

namespace Trace

variable {α : Type}

/-- The number of attempts at the given step. -/
def attemptsAt (number : Nat) (trace : Trace σ α β) : Nat :=
  trace.countP fun
    | .attempted trial => trial.step == number
    | _ => false

/-- A question, and the attempts made under its answer. -/
def round (step : Nat) (time : α) (answer : β) (trials : List (Trial σ α)) : Trace σ α β :=
  .asked step time answer :: trials.map .attempted

variable (first second : Trace σ α β)

theorem answers_append : answers (first ++ second) = answers first ++ answers second :=
  List.filterMap_append

theorem acceptances_append :
    acceptances (first ++ second) = acceptances first ++ acceptances second :=
  List.filterMap_append

theorem attemptsAt_append (number : Nat) :
    attemptsAt number (first ++ second) = attemptsAt number first + attemptsAt number second :=
  List.countP_append

variable (step number : Nat) (time : α) (live : Vec α) (answer : β) (trials : List (Trial σ α))

@[simp] theorem answers_round :
    answers (round step time answer trials) = [(step, time, answer)] := by
  simp [answers, round]

@[simp] theorem acceptances_round :
    acceptances (round step time answer trials) =
      acceptances (trials.map (.attempted : Trial σ α → Deed σ α β)) :=
  rfl

@[simp] theorem attempted_mem_round (trial : Trial σ α) :
    .attempted trial ∈ round step time answer trials ↔ trial ∈ trials := by
  simp [round]

@[simp] theorem attemptsAt_round :
    attemptsAt number (round step time answer trials) =
      trials.countP fun trial => trial.step == number := by
  simp [attemptsAt, round, List.countP_map, Function.comp_def]

@[simp] theorem answers_cons_observed :
    answers (.observed step time live :: second) = answers second :=
  rfl

@[simp] theorem acceptances_cons_observed :
    acceptances (.observed step time live :: second) = acceptances second :=
  rfl

theorem acceptances_cons_of_done {trial : Trial σ α} (h : trial.outcome.ending.isDone) :
    acceptances (.attempted trial :: second) = trial :: acceptances second := by
  simp [acceptances, h]

theorem acceptances_cons_of_undone {trial : Trial σ α} (h : trial.outcome.ending.isDone = false) :
    acceptances (.attempted trial :: second) = acceptances second := by
  simp [acceptances, h]

@[simp] theorem attemptsAt_cons_observed :
    attemptsAt number (.observed step time live :: second) = attemptsAt number second := by
  simp [attemptsAt]

theorem attemptsAt_eq_zero {trace : Trace σ α β} {number : Nat}
    (h : ∀ trial, .attempted trial ∈ trace → trial.step ≠ number) :
    attemptsAt number trace = 0 := by
  refine List.countP_eq_zero.2 fun deed hdeed => ?_
  cases deed with
  | asked => simp
  | observed => simp
  | attempted trial => simpa using h trial hdeed

end Trace

open Trace

namespace Run

/-! ## Attempts at one step -/

/-- Attempts at one step, with the completed one if there is one. -/
structure Rounded (β : Type) (step : Nat) (time : ℝ) (trials : List (Trial σ ℝ))
    (completed : Option (Trial σ ℝ)) : Prop where
  made : ∀ trial ∈ trials, trial.step = step ∧ trial.time = time
  mem : ∀ last ∈ completed, last ∈ trials
  acceptances : Trace.acceptances (trials.map (.attempted : Trial σ ℝ → Deed σ ℝ β)) =
    completed.toList

namespace Rounded

variable {step : Nat} {time dt : ℝ} {stepper : Steppable σ ℝ} {live : Vec ℝ} {env : σ}

theorem nil : Rounded β step time ([] : List (Trial σ ℝ)) none :=
  ⟨by simp, by simp, rfl⟩

theorem undone (h : (stepper.trial live time dt step env).outcome.ending.isDone = false) :
    Rounded β step time [stepper.trial live time dt step env] none :=
  ⟨by simp [Steppable.trial], by simp, acceptances_cons_of_undone _ h⟩

theorem done (h : (stepper.trial live time dt step env).outcome.ending.isDone) :
    Rounded β step time [stepper.trial live time dt step env]
      (some (stepper.trial live time dt step env)) :=
  ⟨by simp [Steppable.trial], by simp, acceptances_cons_of_done _ h⟩

end Rounded

/-! ## The time that is left -/

/-- What a run may do after the step `step`, with `rest` of its time left, if every
answer allows for time steps from `least` of it on, and none of these is below `pace`. -/
structure Bounded (least : β → ℝ) (pace : ℝ) (limit step : Nat) (rest : ℝ)
    (trace : Trace σ ℝ β) : Prop where
  later : ∀ trial, .attempted trial ∈ trace → step < trial.step
  begun : trace.answers.length ≤ ⌈rest / pace⌉₊
  accepted : trace.acceptances.length ≤ trace.answers.length
  attempts : ∀ number, trace.attemptsAt number ≤ limit
  large : ∀ trial ∈ trace.acceptances.dropLast, ∃ answer,
    (trial.step, trial.time, answer) ∈ trace.answers ∧ least answer ≤ trial.dt

/-- A step that takes at least `pace` of the time that is left, or all of it, takes one
from the number of steps there may be. -/
theorem ceil_lt_ceil_of_progress {pace rest rest' : ℝ} (hpace : 0 < pace) (hrest : 0 < rest)
    (hprogress : rest' = 0 ∨ rest' + pace ≤ rest) : ⌈rest' / pace⌉₊ < ⌈rest / pace⌉₊ := by
  refine Nat.lt_ceil.2 ?_
  have hahead : 0 < rest / pace := div_pos hrest hpace
  by_cases hover : rest' / pace ≤ 0
  · rw [Nat.ceil_eq_zero.2 hover]
    exact_mod_cast hahead
  · have hle : rest' + pace ≤ rest := by
      refine hprogress.resolve_left ?_
      rintro rfl
      exact hover (zero_div pace).le
    calc (⌈rest' / pace⌉₊ : ℝ) < rest' / pace + 1 := Nat.ceil_lt_add_one (not_le.1 hover).le
      _ = (rest' + pace) / pace := by rw [add_div, div_self hpace.ne']
      _ ≤ rest / pace := by gcongr

namespace Bounded

variable {least : β → ℝ} {pace rest rest' : ℝ} {limit step : Nat} {time arrived : ℝ} {answer : β}
  {trials : List (Trial σ ℝ)} {last : Trial σ ℝ} {live : Vec ℝ} {more : Trace σ ℝ β}

theorem nil : Bounded least pace limit step rest ([] : Trace σ ℝ β) where
  later := by simp
  begun := Nat.zero_le _
  accepted := le_refl _
  attempts _ := Nat.zero_le _
  large := by simp [Trace.acceptances]

/-- A step that is not completed ends the run. -/
theorem stopped (hpace : 0 < pace) (hrest : 0 < rest)
    (hround : Rounded β (step + 1) time trials none) (hlength : trials.length ≤ limit) :
    Bounded least pace limit step rest (Trace.round (step + 1) time answer trials) where
  later trial htrial := by
    rw [(hround.made trial ((attempted_mem_round ..).1 htrial)).1]
    exact Nat.lt_succ_self step
  begun := by
    rw [answers_round]
    exact Nat.ceil_pos.2 (div_pos hrest hpace)
  accepted := by simp [hround.acceptances]
  attempts number := by
    rw [attemptsAt_round]
    exact List.countP_le_length.trans hlength
  large := by simp [hround.acceptances]

/-- A completed step that makes progress leaves the run with the time after it. -/
theorem continued (hpace : 0 < pace) (hrest : 0 < rest)
    (hround : Rounded β (step + 1) time trials (some last)) (hlength : trials.length ≤ limit)
    (hpaced : pace ≤ least answer)
    (hprogress : rest' = 0 ∨ least answer ≤ last.dt ∧ rest' + least answer ≤ rest)
    (h : Bounded least pace limit (step + 1) rest' more) :
    Bounded least pace limit step rest
      (Trace.round (step + 1) time answer trials ++ .observed (step + 1) arrived live :: more) where
  later trial htrial := by
    have hmem : trial ∈ trials ∨ .attempted trial ∈ more := by
      simpa using htrial
    rcases hmem with hmem | hmem
    · rw [(hround.made trial hmem).1]
      exact Nat.lt_succ_self step
    · exact Nat.lt_of_succ_lt (h.later trial hmem)
  begun := by
    have hless := ceil_lt_ceil_of_progress hpace hrest
      (hprogress.imp_right fun hleft => (by linarith [hleft.2] : rest' + pace ≤ rest))
    have hbegun := h.begun
    simp only [answers_append, answers_round, answers_cons_observed, List.length_append,
      List.length_singleton]
    omega
  accepted := by
    have haccepted := h.accepted
    simp only [answers_append, answers_round, answers_cons_observed, acceptances_append,
      acceptances_round, acceptances_cons_observed, hround.acceptances, Option.toList_some,
      List.length_append, List.length_singleton]
    omega
  attempts number := by
    rw [attemptsAt_append, attemptsAt_round, attemptsAt_cons_observed]
    by_cases hnumber : number = step + 1
    · -- The steps after this one have other numbers.
      have hmore : more.attemptsAt number = 0 := attemptsAt_eq_zero fun trial htrial => by
        have hlater := h.later trial htrial
        omega
      rw [hmore]
      exact List.countP_le_length.trans hlength
    · have hother : (trials.countP fun trial => trial.step == number) = 0 :=
        List.countP_eq_zero.2 fun trial htrial => by
          simp [hround.made trial htrial, Ne.symm hnumber]
      rw [hother, Nat.zero_add]
      exact h.attempts number
  large trial htrial := by
    simp only [acceptances_append, acceptances_round, acceptances_cons_observed,
      hround.acceptances, Option.toList_some, List.singleton_append] at htrial
    simp only [answers_append, answers_round, answers_cons_observed, List.singleton_append]
    cases hmore : Trace.acceptances more with
    | nil => simp [hmore] at htrial
    | cons next others =>
        rw [List.dropLast_cons_of_ne_nil (by simp [hmore])] at htrial
        rcases List.mem_cons.1 htrial with rfl | htrial
        · have hahead : rest' ≠ 0 := by
            rintro rfl
            have hbegun := h.accepted.trans h.begun
            simp [hmore] at hbegun
          exact ⟨answer, by simp [hround.made _ (hround.mem _ rfl)],
            (hprogress.resolve_left hahead).1⟩
        · obtain ⟨answer, hanswer, hle⟩ := h.large trial htrial
          exact ⟨answer, List.mem_cons_of_mem _ hanswer, hle⟩

end Bounded

/-! ## Retries -/

/-- How many attempts at a step there may be, if the first one is made with `largest` at
most, the time steps are reduced by `factor` at least, and none falls below `pace`. -/
noncomputable def attemptLimit (pace factor largest : ℝ) : Nat :=
  ⌊Real.logb factor (largest / pace)⌋₊ + 1

theorem lt_attemptLimit {pace factor largest first reduction : ℝ} {k : Nat} (hpace : 0 < pace)
    (hfactor : 1 < factor) (hreduction : factor ≤ reduction) (hfirst : first ≤ largest)
    (h : pace ≤ first / reduction ^ k) : k < attemptLimit pace factor largest := by
  have hpow : factor ^ k ≤ reduction ^ k := by gcongr
  have hpos : 0 < factor ^ k := by positivity
  have hreached : pace * reduction ^ k ≤ first := (le_div_iff₀ (hpos.trans_le hpow)).1 h
  have hle : factor ^ k ≤ largest / pace := by
    rw [le_div_iff₀ hpace]
    calc factor ^ k * pace ≤ reduction ^ k * pace := by gcongr
      _ = pace * reduction ^ k := mul_comm ..
      _ ≤ largest := hreached.trans hfirst
  have hlog : (k : ℝ) ≤ Real.logb factor (largest / pace) := by
    rw [Real.le_logb_iff_rpow_le hfactor (hpos.trans_le hle), Real.rpow_natCast]
    exact hle
  exact Nat.lt_succ_of_le (Nat.le_floor hlog)

end Run

namespace StepControl

/-- What a control may ask for: time steps from `pace` up to `largest`, which are reduced
by `factor` at least. -/
structure Within (pace factor largest : ℝ) (control : StepControl ℝ) : Prop where
  pace_le : pace ≤ control.minimum
  factor_le : factor ≤ control.reduction
  le_largest : control.dt ≤ largest

theorem Within.opening_le {pace factor largest final time : ℝ} {control : StepControl ℝ}
    (h : control.Within pace factor largest) (hdt : 0 < control.dt)
    (hahead : tolerance final < final - time) :
    control.opening (some final) time ≤ largest + tolerance final := by
  have hsize := (fits_clamp hdt hahead).le_size
  have hlargest := h.le_largest
  rw [opening_some]
  linarith

variable {control : StepControl ℝ} {step : Nat} {dt dt' : ℝ} {ending : Ending ℝ}

theorem settlement_eq_finished (h : control.settlement step dt ending = some (.finished dt')) :
    ending = .done ∧ dt' = dt := by
  unfold settlement at h
  split at h
  · cases h
    exact ⟨rfl, rfl⟩
  · cases h
  · split at h
    · cases h
    · cases h

theorem isDone_of_settlement {settled : Option (RunEnding ℝ ℝ)}
    (h : control.settlement step dt ending = settled) (hsettled : settled ≠ some (.finished dt)) :
    ending.isDone = false := by
  cases ending with
  | done => exact absurd h.symm hsettled
  | failed cause => rfl
  | fault cause => rfl

end StepControl

namespace Run

namespace Attempts

variable {stepper : Steppable σ ℝ} {control : StepControl ℝ} {step fuel : Nat} {time dt dt' : ℝ}
  {trials : List (Trial σ ℝ)} {ending : RunEnding ℝ ℝ} {pace factor first largest : ℝ}

theorem made (h : Attempts stepper control step time fuel dt trials ending) {trial : Trial σ ℝ}
    (htrial : trial ∈ trials) : trial.step = step ∧ trial.time = time := by
  obtain ⟨k, hk⟩ := List.mem_iff_getElem?.1 htrial
  obtain ⟨⟨live, env, rfl⟩, -⟩ := h.attempt_at hk
  exact ⟨rfl, rfl⟩

theorem length_le (h : Attempts stepper control step time fuel dt trials ending) (hpace : 0 < pace)
    (hfactor : 1 < factor) (hwithin : control.Within pace factor first) (hdt : dt ≤ largest) :
    trials.length ≤ attemptLimit pace factor largest := by
  by_contra hlong
  have hretry := h.minimum_le (k := ⌊Real.logb factor (largest / pace)⌋₊) (not_le.1 hlong)
  exact absurd (lt_attemptLimit hpace hfactor hwithin.factor_le hdt (hwithin.pace_le.trans hretry))
    (lt_irrefl _)

/-- Fuel for all the attempts there may be is not used up. -/
theorem fuel_lt (h : Attempts stepper control step time fuel dt trials .unfinished)
    (hpace : 0 < pace) (hfactor : 1 < factor) (hwithin : control.Within pace factor first)
    (hdt : dt ≤ largest) : fuel < attemptLimit pace factor largest := by
  cases fuel with
  | zero => exact Nat.succ_pos _
  | succ fuel =>
      exact lt_attemptLimit hpace hfactor hwithin.factor_le hdt
        (hwithin.pace_le.trans h.minimum_le_of_unfinished)

theorem uncompleted (h : Attempts stepper control step time fuel dt trials ending)
    (hending : ∀ dt', ending ≠ .finished dt') : Rounded β step time trials none := by
  refine ⟨fun _ => h.made, by simp, ?_⟩
  induction h with
  | cut => rfl
  | settled live env hsettled =>
      refine acceptances_cons_of_undone _ (StepControl.isDone_of_settlement hsettled ?_)
      exact fun hfinished => hending _ (Option.some.inj hfinished)
  | retried live env hretried after ih =>
      rw [← ih hending]
      exact acceptances_cons_of_undone _ (StepControl.isDone_of_settlement hretried (by simp))

/-- A completed step was accepted once, with the first time step or one in the range of
the control. -/
theorem completed (h : Attempts stepper control step time fuel dt trials (.finished dt')) :
    ∃ last, Rounded β step time trials (some last) ∧ last.dt = dt' ∧
      (dt' = dt ∨ control.minimum ≤ dt') := by
  suffices hlast : ∃ last ∈ trials, last.dt = dt' ∧ (dt' = dt ∨ control.minimum ≤ dt') ∧
      Trace.acceptances (trials.map (.attempted : Trial σ ℝ → Deed σ ℝ β)) = [last] by
    obtain ⟨last, hmem, hsize, hrange, haccepted⟩ := hlast
    exact ⟨last, ⟨fun _ => h.made, by simpa using hmem, haccepted⟩, hsize, hrange⟩
  generalize hending : RunEnding.finished dt' = ending at h
  induction h with
  | cut => cases hending
  | settled live env hsettled =>
      subst hending
      obtain ⟨hdone, rfl⟩ := StepControl.settlement_eq_finished hsettled
      refine ⟨_, List.mem_singleton_self _, rfl, .inl rfl, ?_⟩
      exact acceptances_cons_of_done _ (by rw [hdone]; rfl)
  | retried live env hretried after ih =>
      obtain ⟨last, hmem, hsize, hle, hlast⟩ := ih hending
      refine ⟨last, List.mem_cons_of_mem _ hmem, hsize, .inr ?_, ?_⟩
      · rcases hle with rfl | hle
        · exact not_lt.1 (StepControl.not_lt_of_settlement_eq_none hretried)
        · exact hle
      · rw [← hlast]
        exact acceptances_cons_of_undone _ (StepControl.isDone_of_settlement hretried (by simp))

end Attempts

/-! ## Whole runs -/

/-- A step that is not shorter than asked for, or than `least`, takes that much of the
time that is left, unless it arrives. -/
theorem arrival_progress {least size dt time final : ℝ} (hsize : least ≤ size)
    (h : dt = clamp time size final ∨ least ≤ dt) :
    final - arrival time dt final = 0 ∨
      least ≤ dt ∧ final - arrival time dt final + least ≤ final - time := by
  by_cases hnear : |final - (time + dt)| ≤ tolerance final
  · exact .inl (sub_eq_zero.2 (arrival_of_le hnear).symm)
  · rw [arrival_of_lt (not_le.1 hnear)]
    have hle : least ≤ dt := by
      rcases h with rfl | hle
      · unfold clamp at hnear ⊢
        split
        · rename_i hreach
          refine absurd ?_ hnear
          rw [if_pos hreach, show final - (time + (final - time)) = 0 by ring, abs_zero]
          exact (tolerance_pos final).le
        · exact hsize
      · exact hle
    exact .inr ⟨hle, by linarith⟩

/-- What the loop of a run keeps to, with fuel for `fuel` more steps and for `retries`
attempts at each, as long as its answers are allowed: it is bounded, and with fuel
enough for the attempts, it is cut off only for want of steps. -/
def Paced (allowed : β → Prop) (least : β → ℝ) (pace : ℝ) (limit retries fuel step : Nat)
    (rest : ℝ) (trace : Trace σ ℝ β) (ending : RunEnding ℝ Nat) : Prop :=
  (∀ answer ∈ trace.answers, allowed answer.2.2) →
    Bounded least pace limit step rest trace ∧
      (limit ≤ retries → ending = .unfinished → fuel ≤ trace.answers.length)

namespace Paced

variable {allowed : β → Prop} {least : β → ℝ} {pace rest rest' : ℝ} {limit retries fuel step : Nat}
  {time arrived : ℝ} {answer : β} {trials : List (Trial σ ℝ)} {last : Trial σ ℝ} {live : Vec ℝ}
  {more : Trace σ ℝ β} {ending : RunEnding ℝ Nat}

theorem nil (h : ending = .unfinished → fuel = 0) :
    Paced allowed least pace limit retries fuel step rest ([] : Trace σ ℝ β) ending :=
  fun _ => ⟨.nil, fun _ hcut => (h hcut).le⟩

/-- The trace is as the loop writes it, with nothing after the last attempt. -/
theorem stopped (hpace : 0 < pace) (hrest : 0 < rest)
    (hround : Rounded β (step + 1) time trials none)
    (hlength : allowed answer → trials.length ≤ limit)
    (hended : allowed answer → limit ≤ retries → ending ≠ .unfinished) :
    Paced allowed least pace limit retries fuel step rest
      (Trace.round (step + 1) time answer trials ++ []) ending := by
  rw [List.append_nil]
  intro hallowed
  have hanswer : allowed answer := hallowed (step + 1, time, answer) (by simp)
  exact ⟨.stopped hpace hrest hround (hlength hanswer),
    fun hretries hcut => absurd hcut (hended hanswer hretries)⟩

theorem continued (hpace : 0 < pace) (hrest : 0 < rest)
    (hround : Rounded β (step + 1) time trials (some last))
    (hlength : allowed answer → trials.length ≤ limit)
    (hpaced : allowed answer → pace ≤ least answer)
    (hprogress : rest' = 0 ∨ least answer ≤ last.dt ∧ rest' + least answer ≤ rest)
    (h : Paced allowed least pace limit retries fuel (step + 1) rest' more ending) :
    Paced allowed least pace limit retries (fuel + 1) step rest
      (Trace.round (step + 1) time answer trials ++ .observed (step + 1) arrived live :: more)
      ending := by
  intro hallowed
  simp only [answers_append, answers_round, answers_cons_observed, List.singleton_append,
    List.mem_cons, forall_eq_or_imp] at hallowed
  obtain ⟨hanswer, hlater⟩ := hallowed
  obtain ⟨hbounded, hfuel⟩ := h hlater
  refine ⟨hbounded.continued hpace hrest hround (hlength hanswer) (hpaced hanswer) hprogress,
    fun hretries hcut => ?_⟩
  have hbegun := hfuel hretries hcut
  simp only [answers_append, answers_round, answers_cons_observed, List.singleton_append,
    List.length_cons]
  omega

/-- The initial state is shown before the first step. -/
theorem shown (h : Paced allowed least pace limit retries fuel 0 rest more ending) :
    Paced allowed least pace limit retries fuel 0 rest (.observed 0 time live :: more) ending := by
  intro hallowed
  obtain ⟨hbounded, hfuel⟩ := h hallowed
  refine ⟨⟨?_, hbounded.begun, hbounded.accepted, ?_, hbounded.large⟩, hfuel⟩
  · simpa using hbounded.later
  · simpa using hbounded.attempts

/-- Fuel for all the steps and attempts there may be is not used up. -/
theorem ends (h : Paced allowed least pace limit retries fuel step rest more ending)
    (hallowed : ∀ answer ∈ more.answers, allowed answer.2.2) (hfuel : ⌈rest / pace⌉₊ < fuel)
    (hretries : limit ≤ retries) : ending ≠ .unfinished := by
  intro hcut
  obtain ⟨hbounded, hbegun⟩ := h hallowed
  exact absurd (hbounded.begun.trans_lt hfuel) (not_lt.2 (hbegun hretries hcut))

end Paced

variable {pace : ℝ} (hpace : 0 < pace) (stepper : Steppable σ ℝ) (observer : Observer σ ℝ)

include hpace in
theorem toTimeFrom_paced (policy : Policy σ ℝ ℝ) (final : ℝ) (fuel step : Nat) (time : ℝ)
    (live : Vec ℝ) :
    Logs (toTimeFrom (stepper.traced ℝ) policy.traced (observer.traced ℝ) final fuel step time live)
      fun deeds run =>
        Paced (pace ≤ ·) id pace 1 1 fuel step (final - time) deeds run.ending := by
  induction fuel generalizing step time live with
  | zero => exact .pure (.nil fun _ => rfl)
  | succ fuel ih =>
      unfold toTimeFrom
      split
      · rename_i hahead
        have hrest : 0 < final - time := (tolerance_pos final).trans (endAhead_iff.1 hahead)
        refine (ask_logs policy (step + 1) time).bind ?_
        rintro dt _ rfl
        cases hdt : checkDt dt (step + 1) with
        | error cause =>
            exact .pure (.stopped hpace hrest .nil (fun _ => Nat.zero_le 1) (by simp [refused]))
        | ok _ =>
            refine (attempt_logs stepper live time _ (step + 1)).bind ?_
            rintro ⟨value, ending⟩ _ ⟨env, rfl, houtcome⟩
            cases ending with
            | failed cause =>
                exact .pure (.stopped hpace hrest (.undone (by rw [houtcome]; rfl))
                  (fun _ => le_refl 1) (by simp))
            | fault cause =>
                exact .pure (.stopped hpace hrest (.undone (by rw [houtcome]; rfl))
                  (fun _ => le_refl 1) (by simp))
            | done =>
                dsimp only
                rw [← arrival_clamp]
                refine (observe_logs observer (step + 1) _ value).bind ?_
                rintro _ _ rfl
                refine (ih ..).weaken fun more run h => ?_
                exact h.continued hpace hrest (.done (by rw [houtcome]; rfl))
                  (fun _ => le_refl 1) id (arrival_progress (le_refl dt) (.inl rfl))
      · exact .pure (.nil (by simp))

include hpace in
theorem toTime_paced (policy : Policy σ ℝ ℝ) (start final : ℝ) (fuel : Nat) (live : Vec ℝ) :
    Logs (toTime fuel (stepper.traced ℝ) policy.traced (observer.traced ℝ) start final live)
      fun deeds run => Paced (pace ≤ ·) id pace 1 1 fuel 0 (final - start) deeds run.ending := by
  unfold toTime
  cases checkInterval start final with
  | error cause => exact .pure (.nil (by simp [refused]))
  | ok _ =>
      refine (observe_logs observer 0 start live).bind ?_
      rintro _ _ rfl
      exact (toTimeFrom_paced hpace stepper observer policy final fuel 0 start live).weaken
        fun _ _ h => h.shown

variable [Journal ℝ σ]

include hpace in
theorem toTimeRetryingFrom_paced (control : Policy σ ℝ (StepControl ℝ)) {factor : ℝ}
    (hfactor : 1 < factor) (largest final : ℝ) (retries fuel step : Nat) (time : ℝ)
    (live : Vec ℝ) :
    Logs (toTimeRetryingFrom retries (stepper.traced _) control.traced (observer.traced _) final
        fuel step time live)
      fun deeds run =>
        Paced (·.Within pace factor largest) (·.minimum) pace
          (attemptLimit pace factor (largest + tolerance final)) retries fuel step (final - time)
          deeds run.ending := by
  induction fuel generalizing step time live with
  | zero => exact .pure (.nil fun _ => rfl)
  | succ fuel ih =>
      unfold toTimeRetryingFrom
      split
      · rename_i hahead
        have hrest : 0 < final - time := (tolerance_pos final).trans (endAhead_iff.1 hahead)
        refine (ask_logs control (step + 1) time).bind ?_
        rintro sizes _ rfl
        cases hvalid : sizes.validate with
        | error cause =>
            simp only [stepRetrying, hvalid, refused, pure_bind]
            exact .pure (.stopped hpace hrest .nil (fun _ => Nat.zero_le _) (by simp))
        | ok _ =>
            obtain ⟨hdt, -, hminimum, -⟩ := StepControl.validate_eq_ok_iff.1 hvalid
            have hfirst : sizes.Within pace factor largest →
                sizes.opening (some final) time ≤ largest + tolerance final :=
              fun hwithin => hwithin.opening_le hdt (endAhead_iff.1 hahead)
            refine (stepRetrying_attempts stepper hvalid (some final) time (step + 1) retries
              live).bind ?_
            rintro ⟨value, ending⟩ _ ⟨trials, rfl, h⟩
            have hlength : sizes.Within pace factor largest →
                trials.length ≤ attemptLimit pace factor (largest + tolerance final) :=
              fun hwithin => h.length_le hpace hfactor hwithin (hfirst hwithin)
            cases ending with
            | failed cause =>
                exact .pure (.stopped hpace hrest (h.uncompleted (by simp)) hlength (by simp))
            | fault cause =>
                exact .pure (.stopped hpace hrest (h.uncompleted (by simp)) hlength (by simp))
            | unfinished =>
                refine .pure (.stopped hpace hrest (h.uncompleted (by simp)) hlength ?_)
                intro hwithin hretries
                exact absurd (h.fuel_lt hpace hfactor hwithin (hfirst hwithin)) (not_lt.2 hretries)
            | finished dt =>
                obtain ⟨last, hround, rfl, hsize⟩ := h.completed (β := StepControl ℝ)
                rw [StepControl.opening_some] at hsize
                refine (observe_logs observer (step + 1) _ value).bind ?_
                rintro _ _ rfl
                refine (ih ..).weaken fun more run hmore => ?_
                exact hmore.continued hpace hrest hround hlength StepControl.Within.pace_le
                  (arrival_progress hminimum hsize)
      · exact .pure (.nil (by simp))

include hpace in
theorem toTimeRetrying_paced (control : Policy σ ℝ (StepControl ℝ)) {factor : ℝ}
    (hfactor : 1 < factor) (largest start final : ℝ) (fuel : Nat) (live : Vec ℝ) :
    Logs (toTimeRetrying fuel (stepper.traced _) control.traced (observer.traced _) start final
        live)
      fun deeds run =>
        Paced (·.Within pace factor largest) (·.minimum) pace
          (attemptLimit pace factor (largest + tolerance final)) fuel fuel 0 (final - start) deeds
          run.ending := by
  unfold toTimeRetrying
  cases checkInterval start final with
  | error cause => exact .pure (.nil (by simp [refused]))
  | ok _ =>
      refine (observe_logs observer 0 start live).bind ?_
      rintro _ _ rfl
      exact (toTimeRetryingFrom_paced hpace stepper observer control hfactor largest final fuel fuel
        0 start live).weaken fun _ _ h => h.shown

/-- Runs to a target time end, whatever their stepper does.  With prescribed time steps
of `pace` or more, and under controls that reduce by `factor` or more, down to `pace` or
more, there are no more steps than fit into the time at that pace, and no more attempts
at each than `attemptLimit` allows.  A step shorter than the minimum of its control is
the last one.  With fuel for these steps and attempts a run comes to its end, and any
more of it makes no difference. -/
theorem target_time_runs_end {pace : ℝ} (hpace : 0 < pace)
    (stepper : Steppable σ ℝ) (observer : Observer σ ℝ) (start final : ℝ) (fuel : Nat)
    (live : Vec ℝ) (env : σ) :
    let steps := ⌈(final - start) / pace⌉₊
    (∀ policy : Policy σ ℝ ℝ,
      let run := toTime fuel stepper policy observer start final live env
      let traced := toTime fuel (stepper.traced _) policy.traced (observer.traced _) start final
        live ([], env)
      (traced.1, traced.2.2) = run ∧
        ((∀ answer ∈ traced.2.1.answers, pace ≤ answer.2.2) →
          Bounded id pace 1 0 (final - start) traced.2.1 ∧
            (steps < fuel → run.1.ending ≠ .unfinished ∧
              ∀ more, fuel ≤ more →
                toTime more stepper policy observer start final live env = run))) ∧
    ∀ (control : Policy σ ℝ (StepControl ℝ)) (factor largest : ℝ), 1 < factor →
      let run := toTimeRetrying fuel stepper control observer start final live env
      let traced := toTimeRetrying fuel (stepper.traced _) control.traced (observer.traced _) start
        final live ([], env)
      let limit := attemptLimit pace factor (largest + tolerance final)
      (traced.1, traced.2.2) = run ∧
        ((∀ answer ∈ traced.2.1.answers, answer.2.2.Within pace factor largest) →
          Bounded (·.minimum) pace limit 0 (final - start) traced.2.1 ∧
            (steps < fuel → limit ≤ fuel → run.1.ending ≠ .unfinished ∧
              ∀ more, fuel ≤ more →
                toTimeRetrying more stepper control observer start final live env = run)) := by
  intro steps
  constructor
  · intro policy run traced
    have hmirror := toTime_traced stepper observer live policy fuel start final
    have hpaced : Paced (pace ≤ ·) id pace 1 1 fuel 0 (final - start) traced.2.1 run.1.ending :=
      (toTime_paced hpace stepper observer policy start final fuel live).of_actsAs hmirror env
    refine ⟨hmirror.eq ([], env), fun hanswers => ⟨(hpaced hanswers).1, fun hsteps => ?_⟩⟩
    have hended := hpaced.ends hanswers hsteps (le_refl 1)
    exact ⟨hended, fun more hmore =>
      (toTime_prolongs stepper observer policy start final hmore live).eq env hended⟩
  · intro control factor largest hfactor run traced limit
    have hmirror := toTimeRetrying_traced stepper observer live control fuel start final
    have hpaced : Paced (·.Within pace factor largest) (·.minimum) pace limit fuel fuel 0
        (final - start) traced.2.1 run.1.ending :=
      (toTimeRetrying_paced hpace stepper observer control hfactor largest start final fuel
        live).of_actsAs hmirror env
    refine ⟨hmirror.eq ([], env), fun hanswers => ⟨(hpaced hanswers).1, fun hsteps hlimit => ?_⟩⟩
    have hended := hpaced.ends hanswers hsteps hlimit
    exact ⟨hended, fun more hmore =>
      (toTimeRetrying_prolongs stepper observer control start final hmore live).eq env hended⟩

/-! ## Answers of a policy -/

section Answers

variable {γ : Type} {plan : Plan σ ℝ β γ} {start : ℝ} {initial live : Vec ℝ} {env₀ env : σ}
  {trace : Trace σ ℝ β} {here : Position σ ℝ} {turn : Turn ℝ β} {ending : RunEnding ℝ γ}
  (allowed : β → Prop)

theorem Course.answered (hpolicy : ∀ step time env, allowed (plan.policy step time env).1)
    (h : Course plan start initial env₀ trace here turn) :
    ∀ answer ∈ trace.answers, allowed answer.2.2 := by
  induction h with
  | opened => simp [Trace.answers]
  | unasked before hahead hstanding ih => exact ih
  | asked before hahead hstanding hcheck ih =>
      rw [answers_asked, List.forall_mem_append, List.forall_mem_singleton]
      exact ⟨ih, hpolicy ..⟩
  | retried before hfailed hagain ih => rwa [answers_attempted]
  | accepted before hdone ih => rwa [answers_attempted]
  | observed before ih => rwa [answers_observed]

/-- The answers in a trace are the policy's. -/
theorem Ended.answered (hpolicy : ∀ step time env, allowed (plan.policy step time env).1)
    (h : Ended plan start initial env₀ trace live env ending) :
    ∀ answer ∈ trace.answers, allowed answer.2.2 := by
  obtain ⟨before, here, turn, hcourse, -, rfl | ⟨-, rfl⟩ | ⟨answer, dt, rfl, -, rfl⟩⟩ := h.last_deed
  · exact hcourse.answered allowed hpolicy
  · rw [answers_asked, List.forall_mem_append, List.forall_mem_singleton]
    exact ⟨hcourse.answered allowed hpolicy, hpolicy ..⟩
  · rw [answers_attempted]
    exact hcourse.answered allowed hpolicy

end Answers

theorem idle_and_stubborn_runs_end :
    let limit := attemptLimit (1 / 2) 2 (1 + tolerance 1)
    (0 : ℝ) < 1 / 2 ∧
      (toTime 3 (.idle ℝ) (always 1) silent 0 1 #[] ()).1.ending ≠ .unfinished ∧
      (toTimeRetrying (limit + 3) stubborn (always whole) silent 0 1 #[] ()).1.ending ≠
        .unfinished := by
  intro limit
  have hinterval : checkInterval (0 : ℝ) 1 = .ok () := checkInterval_of_le zero_le_one
  have hsteps : ⌈((1 : ℝ) - 0) / (1 / 2)⌉₊ = 2 := by
    rw [show ((1 : ℝ) - 0) / (1 / 2) = (2 : Nat) by norm_num, Nat.ceil_natCast]
  have hpace : (0 : ℝ) < 1 / 2 := by norm_num
  have hwhole : whole.Within (1 / 2) 2 1 := ⟨le_refl _, le_refl _, le_refl _⟩
  refine ⟨hpace, ?_, ?_⟩
  · obtain ⟨-, h⟩ := (target_time_runs_end hpace (.idle ℝ) silent 0 1 3 #[] ()).1 (always 1)
    have htrace :=
      (toTime_ended 0 #[] () (.idle ℝ) silent (always 1) hinterval 3).holds ([], ()) rfl
    have hpolicy : ((1 : ℝ) / 2) ≤ 1 := by norm_num
    exact ((h (htrace.answered (1 / 2 ≤ ·) fun _ _ _ => hpolicy)).2 (by omega)).1
  · obtain ⟨-, h⟩ := (target_time_runs_end hpace stubborn silent 0 1 (limit + 3) #[] ()).2
      (always whole) 2 1 one_lt_two
    have htrace := (toTimeRetrying_ended 0 #[] () stubborn silent (always whole) hinterval
      (limit + 3)).holds ([], ()) rfl
    have hbounds := (h (htrace.answered (·.Within (1 / 2) 2 1) fun _ _ _ => hwhole)).2
    exact (hbounds (by omega) (by omega)).1

end Run

end TimeStepping
