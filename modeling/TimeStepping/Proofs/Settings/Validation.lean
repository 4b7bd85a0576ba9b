import TimeStepping.Run.TimeGrid
import TimeStepping.Settings.Basic

/-!
# What a check accepts

Each check of the settings and of a run, by the conditions under which it passes, over
any scalar.
-/

namespace TimeStepping

variable {α : Type} [Scalar α]

namespace Newton.Settings

theorem validate_eq_ok_iff {settings : Newton.Settings α} :
    settings.validate = .ok () ↔ settings.maxIterations ≠ 0 ∧
      ∀ t ∈ settings.tolerances, Scalar.isFinite t = true ∧ ¬t < 0 := by
  unfold validate
  by_cases hlimit : settings.maxIterations = 0
  · simp [hlimit]
  · rw [if_neg hlimit]
    split
    · rename_i hrejected
      obtain ⟨t, ht, hbad⟩ := List.any_eq_true.1 hrejected
      refine iff_of_false (by simp) fun h => ?_
      simp [h.2 t ht] at hbad
    · rename_i haccepted
      refine iff_of_true rfl ⟨hlimit, fun t ht => ?_⟩
      have hgood := fun hbad => haccepted (List.any_eq_true.2 ⟨t, ht, hbad⟩)
      simpa using hgood

end Newton.Settings

/-- What a control has to satisfy to be accepted. -/
structure StepControl.Accepted (control : StepControl α) : Prop where
  dt_finite : Scalar.isFinite control.dt = true
  dt_pos : 0 < control.dt
  minimum_pos : 0 < control.minimum
  minimum_le : control.minimum ≤ control.dt
  reduction_finite : Scalar.isFinite control.reduction = true
  one_lt_reduction : 1 < control.reduction

theorem StepControl.validate_accepted {control : StepControl α} :
    control.validate = .ok () ↔ control.Accepted := by
  unfold StepControl.validate
  constructor
  · intro h
    split at h
    · cases h
    rename_i hdt
    split at h
    · cases h
    rename_i hminimum
    split at h
    · cases h
    rename_i hreduction
    rw [Classical.not_not] at hdt hminimum hreduction
    exact ⟨hdt.1, hdt.2, hminimum.1, hminimum.2, hreduction.1, hreduction.2⟩
  · intro h
    rw [if_neg (Classical.not_not.2 ⟨h.dt_finite, h.dt_pos⟩),
      if_neg (Classical.not_not.2 ⟨h.minimum_pos, h.minimum_le⟩),
      if_neg (Classical.not_not.2 ⟨h.reduction_finite, h.one_lt_reduction⟩)]

/-- What settings have to satisfy to be accepted: of the control, only the one of their mode is
checked. -/
structure Settings.Accepted (settings : Settings α) : Prop where
  duration_finite : Scalar.isFinite settings.duration = true
  duration_nonneg : ¬settings.duration < 0
  control : settings.control.validate = .ok ()
  newton : settings.newton.validate = .ok ()

theorem Settings.validate_accepted {settings : Settings α} :
    settings.validate = .ok () ↔ settings.Accepted := by
  unfold Settings.validate
  constructor
  · intro h
    split at h
    · cases h
    rename_i hduration
    rw [not_or, Classical.not_not] at hduration
    split at h
    · cases h
    rename_i hcontrol
    exact ⟨hduration.1, hduration.2, hcontrol, h⟩
  · intro h
    rw [if_neg (not_or.2 ⟨Classical.not_not.2 h.duration_finite, h.duration_nonneg⟩), h.control]
    exact h.newton

theorem Settings.Accepted.dt_accepted {settings : Settings α} (h : settings.Accepted) :
    Scalar.isFinite settings.dt = true ∧ 0 < settings.dt := by
  have hcontrol := StepControl.validate_accepted.1 h.control
  have hdt : settings.control.dt = settings.dt := by
    unfold Settings.control StepControl.fixed
    split
    · rfl
    · rfl
  rw [← hdt]
  exact ⟨hcontrol.dt_finite, hcontrol.dt_pos⟩

end TimeStepping
