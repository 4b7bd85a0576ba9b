import TimeStepping.Newton
import TimeStepping.Proofs.Assertions

/-!
# One pass of the Newton iteration

A pass whose residual is completed ends the iteration there when a residual tolerance
is met, and otherwise makes a correction.  The corrections that leave the iteration
open are told by `correct_eq_inr_iff`.
-/

namespace TimeStepping

namespace Newton

variable {σ α : Type} [Scalar α] {settings : Settings α} {linear : LinearSolver α}
  {state next r : Vec α} {j : Mat α} {iteration : Nat}

theorem correct_eq_inr_iff :
    correct settings linear iteration state r j = .inr next ↔
      ∃ delta, linear j (Vec.negate r) = .ok (some delta) ∧ Vec.add state delta = .ok next ∧
        Scalar.isFinite (Vec.norm delta) = true ∧
        settings.correctionMet (Vec.norm delta) (Vec.norm next) = false := by
  constructor
  · intro h
    cases hlinear : linear j (Vec.negate r) with
    | error cause => simp [correct, hlinear] at h
    | ok found =>
        cases found with
        | none => simp [correct, hlinear] at h
        | some delta =>
            cases hadd : Vec.add state delta with
            | error cause => simp [correct, hlinear, hadd] at h
            | ok moved =>
                cases hfinite : Scalar.isFinite (Vec.norm delta) with
                | false => simp [correct, hlinear, hadd, hfinite] at h
                | true =>
                    cases hmet : settings.correctionMet (Vec.norm delta) (Vec.norm moved) with
                    | true => simp [correct, hlinear, hadd, hfinite, hmet] at h
                    | false =>
                        obtain rfl : moved = next := by
                          simpa [correct, hlinear, hadd, hfinite, hmet] using h
                        exact ⟨delta, rfl, hadd, hfinite, hmet⟩
  · rintro ⟨delta, hlinear, hadd, hfinite, hmet⟩
    simp [correct, hlinear, hadd, hfinite, hmet]

/-- How a correction can end the iteration.  Only one that is done or not finite counts. -/
theorem ending_of_correct {report : Report α}
    (h : correct settings linear iteration state r j = .inl report) :
    report.ending = .done ∧ report.iterations = iteration + 1 ∨
      (∃ cause, report.ending = .fault cause) ∨
      report.ending = .failed (.unsolved iteration .singularJacobian) ∨
      report.ending = .failed (.unsolved (iteration + 1) .correctionNotFinite) := by
  unfold correct at h
  split at h
  · cases h
    exact .inr (.inl ⟨_, rfl⟩)
  · cases h
    exact .inr (.inr (.inl rfl))
  · split at h
    · cases h
      exact .inr (.inl ⟨_, rfl⟩)
    · dsimp only at h
      split at h
      · cases h
        exact .inr (.inr (.inr rfl))
      · split at h
        · cases h
          exact .inl ⟨rfl, rfl⟩
        · cases h

variable [Journal α σ] {system : AlgebraicSystem σ α} {residual : Vec α} {jacobian : Mat α}
  {initial : α} {env : σ}

theorem iterate_of_not_finite (remaining : Nat)
    (hr : (system.residual state residual env).1 = .done r)
    (hfinite : Scalar.isFinite (Vec.norm r) = false) :
    (iterate settings linear system (remaining + 1) iteration initial state residual jacobian
      env).1 = .diverged state iteration .residualNotFinite := by
  rw [iterate, bind_apply]
  generalize system.residual state residual env = result at hr ⊢
  obtain ⟨⟨value, ending⟩, after⟩ := result
  cases hr
  dsimp only
  rw [if_pos (by simp [hfinite])]
  rfl

theorem iterate_of_met (remaining : Nat)
    (hr : (system.residual state residual env).1 = .done r)
    (hfinite : Scalar.isFinite (Vec.norm r) = true)
    (hmet : settings.residualMet iteration (if iteration = 0 then Vec.norm r else initial)
      (Vec.norm r) = true) :
    (iterate settings linear system (remaining + 1) iteration initial state residual jacobian
      env).1 = ⟨state, iteration, .done⟩ := by
  rw [iterate, bind_apply]
  generalize system.residual state residual env = result at hr ⊢
  obtain ⟨⟨value, ending⟩, after⟩ := result
  cases hr
  dsimp only
  rw [if_neg (by simp [hfinite]), bind_apply, if_pos hmet]
  rfl

/-- What is left to do once a correction is tried. -/
def afterCorrection (settings : Settings α) (linear : LinearSolver α)
    (system : AlgebraicSystem σ α) (remaining iteration : Nat) (reference : α)
    (state r : Vec α) (j : Mat α) : StateM σ (Report α) :=
  match correct settings linear iteration state r j with
  | .inl report => pure report
  | .inr next => iterate settings linear system remaining (iteration + 1) reference next r j

theorem iterate_of_unmet (remaining : Nat)
    (hr : (system.residual state residual env).1 = .done r)
    (hfinite : Scalar.isFinite (Vec.norm r) = true)
    (hunmet : settings.residualMet iteration (if iteration = 0 then Vec.norm r else initial)
      (Vec.norm r) = false)
    (hj : ∀ env, (system.jacobian state jacobian env).1 = .done j) :
    ∃ after, iterate settings linear system (remaining + 1) iteration initial state residual
        jacobian env =
      afterCorrection settings linear system remaining iteration
        (if iteration = 0 then Vec.norm r else initial) state r j after := by
  rw [iterate, bind_apply]
  generalize system.residual state residual env = result at hr ⊢
  obtain ⟨⟨value, ending⟩, after⟩ := result
  cases hr
  dsimp only
  rw [if_neg (by simp [hfinite]), bind_apply, if_neg (by simp [hunmet]), bind_apply, hj]
  exact ⟨_, rfl⟩

end Newton

end TimeStepping
