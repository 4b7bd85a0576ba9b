import TimeStepping.Proofs.Exact
import TimeStepping.Proofs.Run.Sequence

/-!
# Timelines

The times at which a run to a target time asks, attempts and observes, and the time
steps it attempts.  `Plan.OnGrid` says what its plan owes to the target time; what the
trace of a run by such a plan looks like is shown of runs under way by induction on their
course, and is read off the last deed of those that ended: `Ended.keepsGrid`.
Arithmetic is exact.
-/

namespace TimeStepping

namespace TimeGrid

variable {final time size dt factor : ℝ}

theorem endAhead_iff : endAhead time final ↔ tolerance final < final - time :=
  decide_eq_true_iff

theorem reachesEnd_iff : reachesEnd time dt final ↔ final - tolerance final ≤ time + dt :=
  decide_eq_true_iff

/-- The time steps a step may be attempted with when `size` is asked for. -/
structure Fits (final time size dt : ℝ) : Prop where
  pos : 0 < dt
  le_size : dt ≤ size + tolerance final
  le_rest : dt ≤ final - time

theorem fits_clamp (hsize : 0 < size) (hahead : tolerance final < final - time) :
    Fits final time size (clamp time size final) := by
  have htol := tolerance_pos final
  unfold clamp
  split
  · rename_i hreach
    have hend := reachesEnd_iff.1 hreach
    exact ⟨by linarith, by linarith, le_refl _⟩
  · rename_i hreach
    have hend : time + size < final - tolerance final := not_le.1 (mt reachesEnd_iff.2 hreach)
    exact ⟨hsize, by linarith, by linarith⟩

theorem Fits.reduced (h : Fits final time size dt) (hfactor : 1 < factor) :
    Fits final time size (dt / factor) := by
  have hpos : 0 < dt / factor := div_pos h.pos (by linarith)
  have hle : dt / factor ≤ dt := div_le_self h.pos.le hfactor.le
  exact ⟨hpos, hle.trans h.le_size, hle.trans h.le_rest⟩

end TimeGrid

open TimeGrid

namespace Run

open Trace

variable {start final time size dt : ℝ}

/-! ## Arriving -/

theorem arrival_of_le (h : |final - (time + dt)| ≤ tolerance final) :
    arrival time dt final = final :=
  if_pos h

theorem arrival_of_lt (h : tolerance final < |final - (time + dt)|) :
    arrival time dt final = time + dt :=
  if_neg (not_le.2 h)

/-- A step that is shortened to the end arrives there, and any other one does not. -/
theorem arrival_clamp (time dt final : ℝ) :
    arrival time (clamp time dt final) final =
      if reachesEnd time dt final then final else time + dt := by
  have htol := tolerance_pos final
  unfold clamp
  split
  · refine arrival_of_le ?_
    rw [show final - (time + (final - time)) = 0 by ring, abs_zero]
    exact htol.le
  · rename_i hreach
    have hend : time + dt < final - tolerance final := not_le.1 (mt reachesEnd_iff.2 hreach)
    refine arrival_of_lt ?_
    rw [abs_of_pos (by linarith)]
    linarith

theorem lt_arrival (hfits : Fits final time size dt) : time < arrival time dt final := by
  have hpos := hfits.pos
  have hrest := hfits.le_rest
  unfold arrival
  split <;> linarith

theorem arrival_le (hfits : Fits final time size dt) : arrival time dt final ≤ final := by
  have hrest := hfits.le_rest
  unfold arrival
  split
  · exact le_refl final
  · linarith

/-- No step ends inside the tolerance but short of the end. -/
theorem arrival_eq_or_ahead (hfits : Fits final time size dt) :
    arrival time dt final = final ∨ tolerance final < final - arrival time dt final := by
  by_cases hnear : |final - (time + dt)| ≤ tolerance final
  · exact .inl (arrival_of_le hnear)
  · have hfar := not_le.1 hnear
    have hrest := hfits.le_rest
    rw [abs_of_nonneg (by linarith)] at hfar
    refine .inr ?_
    rw [arrival_of_lt (not_le.1 hnear)]
    exact hfar

/-! ## Plans up to a target time -/

variable {σ β : Type}

/-- A time step that a step may be attempted with under an answer: the answer passed its
check, the time step fits it, and where it leads is where a step arrives. -/
structure Plan.Suits (plan : Plan σ ℝ β Nat) (final : ℝ) (size : β → ℝ) (step : Nat) (time : ℝ)
    (answer : β) (dt : ℝ) : Prop where
  checked : plan.check step answer = .ok ()
  fits : Fits final time (size answer) dt
  arrives : plan.arrival step time answer dt = Run.arrival time dt final

namespace Plan.Suits

variable {plan : Plan σ ℝ β Nat} {size : β → ℝ} {step : Nat} {answer : β}

theorem lt_arrival (h : plan.Suits final size step time answer dt) :
    time < plan.arrival step time answer dt :=
  h.arrives ▸ Run.lt_arrival h.fits

theorem arrival_le (h : plan.Suits final size step time answer dt) :
    plan.arrival step time answer dt ≤ final :=
  h.arrives ▸ Run.arrival_le h.fits

theorem arrival_eq_or_ahead (h : plan.Suits final size step time answer dt) :
    plan.arrival step time answer dt = final ∨
      tolerance final < final - plan.arrival step time answer dt :=
  h.arrives ▸ Run.arrival_eq_or_ahead h.fits

end Plan.Suits

/-- The plan goes on up to `final` and asks before every step; the time steps it attempts
under an answer suit it, `size` being the one that is asked for. -/
structure Plan.OnGrid (final : ℝ) (size : β → ℝ) (plan : Plan σ ℝ β Nat) : Prop where
  extent : plan.extent = .upTo final
  asks : plan.standing = none
  first (step : Nat) (time : ℝ) (answer : β) (hahead : tolerance final < final - time)
    (hcheck : plan.check step answer = .ok ()) :
    plan.Suits final size step time answer (plan.first time answer)
  again (step : Nat) (time : ℝ) (answer : β) (dt next : ℝ) (cause : Failure ℝ)
    (h : plan.Suits final size step time answer dt)
    (hagain : plan.again step answer dt cause = .ok next) :
    plan.Suits final size step time answer next

theorem Plan.OnGrid.goesOn_iff {plan : Plan σ ℝ β Nat} {size : β → ℝ}
    (h : plan.OnGrid final size) (step : Nat) :
    plan.extent.goesOn step time ↔ tolerance final < final - time := by
  rw [h.extent]
  exact endAhead_iff

/-! ## What holds of a trace -/

/-- What a deed owes to the ones before it.  A question is about the step after the one
observed last; an attempt is of the step asked about last, at the time observed last,
with a time step that is positive and longer than the answer by the tolerance at most;
and apart from the first, an observation shows what the attempt just completed has led to. -/
def Follows (final : ℝ) (size : β → ℝ) (before : Trace σ ℝ β) : Deed σ ℝ β → Prop
  | .asked step time _ =>
      ∃ last live, step = last + 1 ∧ before.shown.getLast? = some (last, time, live)
  | .attempted trial =>
      ∃ last live answer, trial.step = last + 1 ∧
        before.shown.getLast? = some (last, trial.time, live) ∧
        before.answers.getLast? = some (trial.step, trial.time, answer) ∧
        0 < trial.dt ∧ trial.dt ≤ size answer + tolerance final
  | .observed step time live =>
      before = [] ∨ ∃ trial, before.getLast? = some (.attempted trial) ∧
        trial.outcome.ending = .done ∧ step = trial.step ∧
        time = arrival trial.time trial.dt final ∧ live = trial.outcome.value

/-- What is shown of a completed attempt: the state it left, where it arrived. -/
noncomputable def arrived (β : Type) (final : ℝ) (trial : Trial σ ℝ) : Deed σ ℝ β :=
  .observed trial.step (arrival trial.time trial.dt final) trial.outcome.value

/-- Every completed attempt is followed by an observation of where it arrived. -/
def Shown (final : ℝ) (trace : Trace σ ℝ β) : Prop :=
  ∀ before trial, trial.outcome.ending = .done → before ++ [.attempted trial] <+: trace →
    before ++ [.attempted trial, arrived β final trial] <+: trace

/-- What a run from `start` to `final` does, read off its trace and what it comes to. -/
structure KeepsGrid (start final : ℝ) (initial : Vec ℝ) (size : β → ℝ) (trace : Trace σ ℝ β)
    (run : Run ℝ Nat) : Prop where
  first_observed : trace.shown.head? = some (0, start, initial)
  observed_steps : trace.shown.map (·.1) = List.range trace.shown.length
  times_increase : trace.shown.Pairwise (·.2.1 < ·.2.1)
  times_le : ∀ seen ∈ trace.shown, seen.2.1 ≤ final
  asked_steps : trace.answers.map (·.1) = List.range' 1 trace.answers.length
  follows : ∀ before deed, before ++ [deed] <+: trace → Follows final size before deed
  accepted_observed : Shown final trace
  finished : ∀ count, run.ending = .finished count → count = trace.acceptances.length ∧
    (count = 0 ↔ final - start ≤ tolerance final) ∧
    (count ≠ 0 → trace.shown.getLast? = some (count, final, run.live))

section Prefixes

variable {δ : Type} {before trace : List δ} {deed last : δ}

theorem concat_prefix_concat :
    before ++ [deed] <+: trace ++ [last] ↔
      before = trace ∧ deed = last ∨ before ++ [deed] <+: trace := by
  rw [List.prefix_concat_iff]
  simp

theorem concat_prefix_singleton : before ++ [deed] <+: [last] ↔ before = [] ∧ deed = last := by
  simpa using @concat_prefix_concat _ before [] deed last

end Prefixes

namespace Shown

variable {trace : Trace σ ℝ β}

theorem concat {deed : Deed σ ℝ β} (h : Shown final trace)
    (hdeed : ∀ trial, trial.outcome.ending = .done → deed ≠ .attempted trial) :
    Shown final (trace ++ [deed]) := by
  intro before trial hdone hbegins
  rcases concat_prefix_concat.1 hbegins with ⟨_, hnew⟩ | hold
  · exact absurd hnew.symm (hdeed trial hdone)
  · exact (h before trial hdone hold).trans (List.prefix_append trace [deed])

theorem concat_pair (h : Shown final trace) (trial : Trial σ ℝ) :
    Shown final (trace ++ [.attempted trial] ++ [arrived β final trial]) := by
  intro before earlier hdone hbegins
  rcases concat_prefix_concat.1 hbegins with ⟨_, hnew⟩ | hold
  · cases hnew
  · rcases concat_prefix_concat.1 hold with ⟨rfl, hlast⟩ | hearlier
    · cases hlast
      rw [List.append_assoc]
      exact List.prefix_refl _
    · rw [List.append_assoc]
      exact (h before earlier hdone hearlier).trans (List.prefix_append trace _)

end Shown

/-! ## Runs under way -/

variable [Journal ℝ σ] {plan : Plan σ ℝ β Nat} {size : β → ℝ} {initial live : Vec ℝ}
  {env₀ env : σ} {trace : Trace σ ℝ β} {here : Position σ ℝ} {turn : Turn ℝ β}

/-- The time step of the attempt under way, if there is one, suits the run. -/
def Turn.Suits (plan : Plan σ ℝ β Nat) (final : ℝ) (size : β → ℝ) (here : Position σ ℝ) :
    Turn ℝ β → Prop
  | .begin => True
  | .attempt answer dt | .observe answer dt =>
      plan.Suits final size (here.step + 1) here.time answer dt

/-- The trace without an attempt that is still to be shown. -/
def Turn.settled (trace : Trace σ ℝ β) : Turn ℝ β → Trace σ ℝ β
  | .observe .. => trace.dropLast
  | _ => trace

namespace Course

section

variable (hgrid : plan.OnGrid final size)
include hgrid

theorem suits (h : Course plan start initial env₀ trace here turn) :
    turn.Suits plan final size here := by
  induction h with
  | opened => trivial
  | unasked before hahead h ih => simp [hgrid.asks] at h
  | asked before hahead h hcheck ih =>
      exact hgrid.first _ _ _ ((hgrid.goesOn_iff _).1 hahead) hcheck
  | retried before hfailed hagain ih => exact hgrid.again _ _ _ _ _ _ ih hagain
  | accepted before hdone ih => exact ih
  | observed before ih => trivial

theorem time_le (hle : start ≤ final) (h : Course plan start initial env₀ trace here turn) :
    here.time ≤ final := by
  induction h with
  | opened => exact hle
  | unasked before hahead h ih => exact ih
  | asked before hahead h hcheck ih => exact ih
  | retried before hfailed hagain ih => exact ih
  | accepted before hdone ih => exact ih
  | observed before ih => exact (before.suits hgrid).arrival_le

theorem times_le_last (h : Course plan start initial env₀ trace here turn) :
    ∀ seen ∈ trace.shown, seen.2.1 ≤ here.time := by
  induction h with
  | opened => simp [shown]
  | unasked before hahead h ih => exact ih
  | asked before hahead h hcheck ih => rwa [shown_asked]
  | retried before hfailed hagain ih => rwa [shown_attempted]
  | accepted before hdone ih => rwa [shown_attempted]
  | observed before ih =>
      rw [shown_observed]
      intro seen hmem
      rcases List.mem_append.1 hmem with hold | hnew
      · exact (ih seen hold).trans (before.suits hgrid).lt_arrival.le
      · rw [List.mem_singleton.1 hnew]

theorem times_increase (h : Course plan start initial env₀ trace here turn) :
    trace.shown.Pairwise (·.2.1 < ·.2.1) := by
  induction h with
  | opened => simp [shown]
  | unasked before hahead h ih => exact ih
  | asked before hahead h hcheck ih => rwa [shown_asked]
  | retried before hfailed hagain ih => rwa [shown_attempted]
  | accepted before hdone ih => rwa [shown_attempted]
  | observed before ih =>
      rw [shown_observed, List.pairwise_append]
      refine ⟨ih, List.pairwise_singleton _ _, fun seen hmem next hnext => ?_⟩
      rw [List.mem_singleton.1 hnext]
      exact (before.times_le_last hgrid seen hmem).trans_lt (before.suits hgrid).lt_arrival

/-- Between two steps the run has arrived, or it is ahead of its end by more than
the tolerance. -/
theorem arrived_or_ahead (h : Course plan start initial env₀ trace here .begin)
    (hstep : here.step ≠ 0) :
    here.time = final ∨ tolerance final < final - here.time := by
  cases h with
  | opened => exact absurd rfl hstep
  | observed before => exact (before.suits hgrid).arrival_eq_or_ahead

/-- A run takes a first step only if its end is ahead when it starts. -/
theorem start_ahead (h : Course plan start initial env₀ trace here turn)
    (hbegun : turn.asked here.step ≠ 0) : tolerance final < final - start := by
  induction h with
  | opened => exact absurd rfl hbegun
  | unasked before hahead h ih => simp [hgrid.asks] at h
  | @asked trace here before hahead h hcheck ih =>
      by_cases hstep : here.step = 0
      · rw [← before.time_eq_start hstep]
        exact (hgrid.goesOn_iff _).1 hahead
      · exact ih hstep
  | retried before hfailed hagain ih => exact ih hbegun
  | accepted before hdone ih => exact ih hbegun
  | observed before ih => exact ih hbegun

/-! ### The order of deeds -/

theorem attempted_follows {answer : β}
    (h : Course plan start initial env₀ trace here (.attempt answer dt)) :
    Follows final size trace (.attempted (plan.trial here dt)) := by
  obtain ⟨live, hlast, -⟩ := h.last_shown
  have hfits := (h.suits hgrid).fits
  exact ⟨_, live, answer, rfl, hlast, h.last_answer hgrid.asks rfl, hfits.pos, hfits.le_size⟩

end

theorem asked_follows (h : Course plan start initial env₀ trace here .begin) (answer : β) :
    Follows final size trace (.asked (here.step + 1) here.time answer) := by
  obtain ⟨live, hlast, -⟩ := h.last_shown
  exact ⟨_, live, rfl, hlast⟩

theorem follows (hgrid : plan.OnGrid final size)
    (h : Course plan start initial env₀ trace here turn) {earlier : Trace σ ℝ β}
    {deed : Deed σ ℝ β} (hbegins : earlier ++ [deed] <+: trace) :
    Follows final size earlier deed := by
  induction h with
  | opened =>
      obtain ⟨rfl, rfl⟩ := concat_prefix_singleton.1 hbegins
      exact .inl rfl
  | unasked before hahead h ih => exact ih hbegins
  | asked before hahead h hcheck ih =>
      rcases concat_prefix_concat.1 hbegins with ⟨rfl, rfl⟩ | hold
      · exact before.asked_follows _
      · exact ih hold
  | retried before hfailed hagain ih =>
      rcases concat_prefix_concat.1 hbegins with ⟨rfl, rfl⟩ | hold
      · exact before.attempted_follows hgrid
      · exact ih hold
  | accepted before hdone ih =>
      rcases concat_prefix_concat.1 hbegins with ⟨rfl, rfl⟩ | hold
      · exact before.attempted_follows hgrid
      · exact ih hold
  | observed before ih =>
      rcases concat_prefix_concat.1 hbegins with ⟨rfl, rfl⟩ | hold
      · have harrives := (before.suits hgrid).arrives
        cases before with
        | accepted before hdone =>
            exact .inr ⟨_, List.getLast?_concat, hdone, rfl, harrives, rfl⟩
      · exact ih hold

/-- Every completed attempt has been shown, apart from one that was just made. -/
theorem accepted_shown (hgrid : plan.OnGrid final size)
    (h : Course plan start initial env₀ trace here turn) : Shown final (turn.settled trace) := by
  induction h with
  | opened =>
      intro before trial hdone hbegins
      cases (concat_prefix_singleton.1 hbegins).2
  | unasked before hahead h ih => exact ih
  | asked before hahead h hcheck ih => exact ih.concat nofun
  | retried before hfailed hagain ih =>
      refine ih.concat ?_
      rintro _ hdone ⟨⟩
      cases hfailed.symm.trans hdone
  | accepted before hdone ih => rwa [Turn.settled, List.dropLast_concat]
  | @observed trace here answer dt before ih =>
      cases before with
      | @accepted trace here _ _ before hdone =>
          have harrives := (before.suits hgrid).arrives
          rw [Turn.settled, List.dropLast_concat] at ih
          change Shown final
            (_ ++ [.observed _ (plan.arrival (here.step + 1) here.time answer dt) _])
          rw [harrives]
          exact ih.concat_pair (plan.trial here dt)

end Course

/-! ## Runs that ended -/

namespace Ended

variable {ending : RunEnding ℝ Nat} (hgrid : plan.OnGrid final size)

include hgrid

theorem follows (h : Ended plan start initial env₀ trace live env ending) {earlier : Trace σ ℝ β}
    {deed : Deed σ ℝ β} (hbegins : earlier ++ [deed] <+: trace) :
    Follows final size earlier deed := by
  obtain ⟨before, here, turn, hcourse, -, rfl | ⟨rfl, rfl⟩ | ⟨answer, dt, rfl, -, rfl⟩⟩ :=
    h.last_deed
  · exact hcourse.follows hgrid hbegins
  · rcases concat_prefix_concat.1 hbegins with ⟨rfl, rfl⟩ | hold
    · exact hcourse.asked_follows _
    · exact hcourse.follows hgrid hold
  · rcases concat_prefix_concat.1 hbegins with ⟨rfl, rfl⟩ | hold
    · exact hcourse.attempted_follows hgrid
    · exact hcourse.follows hgrid hold

theorem accepted_shown (h : Ended plan start initial env₀ trace live env ending) :
    Shown final trace := by
  obtain ⟨before, here, turn, hcourse, hturn, hlast⟩ := h.last_deed
  have hshown : Shown final before := by
    have hsettled := hcourse.accepted_shown hgrid
    cases turn with
    | begin => exact hsettled
    | attempt answer dt => exact hsettled
    | observe answer dt => exact absurd rfl (hturn answer dt)
  rcases hlast with rfl | ⟨-, rfl⟩ | ⟨answer, dt, -, hundone, rfl⟩
  · exact hshown
  · exact hshown.concat nofun
  · refine hshown.concat ?_
    rintro _ hdone ⟨⟩
    exact hundone hdone

/-- A run that finishes has shown all it completed, the last of it at its end. -/
theorem finished_count {count : Nat}
    (h : Ended plan start initial env₀ trace live env (.finished count)) :
    count = trace.acceptances.length ∧ (count = 0 ↔ final - start ≤ tolerance final) ∧
      (count ≠ 0 → trace.shown.getLast? = some (count, final, live)) := by
  cases h with
  | @finished _ here before hlast =>
      have hresult : plan.extent.result here.step here.time = here.step := by
        rw [hgrid.extent]
        rfl
      have hnear : final - here.time ≤ tolerance final :=
        not_lt.1 (mt (hgrid.goesOn_iff _).2 hlast)
      rw [hresult]
      refine ⟨?_, ⟨fun hzero => ?_, fun hclose => ?_⟩, fun hsome => ?_⟩
      · simpa [Turn.accepted] using (congrArg List.length before.accepted_steps).symm
      · rwa [← before.time_eq_start hzero]
      · by_contra hsome
        exact absurd (before.start_ahead hgrid hsome) (not_lt.2 hclose)
      · obtain ⟨seen, hseen, hlive⟩ := before.last_shown
        rcases before.arrived_or_ahead hgrid hsome with harrived | hahead
        · rw [hseen, harrived, hlive rfl]
        · exact absurd hahead (not_lt.2 hnear)

/-- A run by a plan up to a target time keeps to its grid. -/
theorem keepsGrid (hle : start ≤ final) {run : Run ℝ Nat}
    (h : Ended plan start initial env₀ trace run.live env run.ending) :
    KeepsGrid start final initial size trace run := by
  obtain ⟨before, here, turn, hcourse, hshown⟩ := h.shown_course
  obtain ⟨asked, hasked⟩ := h.asked_steps hgrid.asks
  refine {
    first_observed := hshown ▸ hcourse.first_shown
    observed_steps := ?_
    times_increase := hshown ▸ hcourse.times_increase hgrid
    times_le := fun seen hmem => ?_
    asked_steps := ?_
    follows := fun before deed => h.follows hgrid
    accepted_observed := h.accepted_shown hgrid
    finished := fun count hcount => ?_ }
  · have hsteps := hcourse.shown_steps
    have hlength := congrArg List.length hsteps
    rw [List.length_map, List.length_range] at hlength
    rw [hshown, hsteps, hlength]
  · rw [hshown] at hmem
    exact (hcourse.times_le_last hgrid seen hmem).trans (hcourse.time_le hgrid hle)
  · have hlength := congrArg List.length hasked
    rw [List.length_map, List.length_range'] at hlength
    rw [hasked, hlength]
  · rw [hcount] at h
    exact h.finished_count hgrid

end Ended

end Run

end TimeStepping
