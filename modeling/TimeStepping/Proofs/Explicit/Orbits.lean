import TimeStepping.Proofs.Explicit.Tableau
import TimeStepping.Proofs.Run.Tandem

/-!
# Orbits of explicit steps

Where no evaluation fails, a step of an explicit scheme is a function of the state, and
a run goes along the orbit of that function: `ExplicitStepper.attempt_of_evaluates`,
`ExplicitStepper.steps_of_evaluates`.
-/

namespace TimeStepping

variable {σ : Type} {n : Nat}

/-! ## Velocity fields without failures -/

/-- Every evaluation is completed, with the value of the function. -/
def VelocityField.Evaluates (f : VelocityField σ n) (g : (Fin n → ℝ) → ℝ → Fin n → ℝ) : Prop :=
  ∀ x time env, (f x time env).1 = .done (g x time)

namespace Tableau

variable (g : (Fin n → ℝ) → ℝ → Fin n → ℝ) (y : Fin n → ℝ) (time dt : ℝ)

/-- The given slopes, with those of the rows after them. -/
noncomputable def slopes : List Row → List (Fin n → ℝ) → List (Fin n → ℝ)
  | [], before => before
  | row :: rows, before =>
      slopes rows (before ++ [g (y + dt • mix row.coefficients before) (time + row.node * dt)])

/-- The state after a step of the method. -/
noncomputable def next (tableau : Tableau) : Fin n → ℝ :=
  y + dt • mix tableau.weights (slopes g y time dt tableau.rows [])

variable {f : VelocityField σ n} {g}

theorem slopesFrom_of_evaluates (h : f.Evaluates g) (rows : List Row)
    (before : List (Fin n → ℝ)) (env : σ) :
    (slopesFrom f y time dt rows before env).1 = .done (slopes g y time dt rows before) := by
  induction rows generalizing before env with
  | nil => rfl
  | cons row rows ih =>
      rw [slopesFrom_of_done (Prod.ext (h ..) rfl), ih]
      rfl

theorem step_of_evaluates (h : f.Evaluates g) (tableau : Tableau) (env : σ) :
    (tableau.step f y time dt env).1 = .done (tableau.next g y time dt) := by
  rw [step, bind_apply, slopesFrom_of_evaluates y time dt h]
  rfl

theorem next_euler : ExplicitScheme.euler.tableau.next g y time dt = y + dt • g y time := by
  simp [ExplicitScheme.tableau, next, slopes]

end Tableau

/-! ## Runs along an orbit -/

namespace Run

variable {stepper : Steppable σ ℝ} {P : σ → Prop} {start dt : ℝ} {count : Nat}
  (observer : Observer σ ℝ) (orbit : Nat → Vec ℝ)
  (hobserve : ∀ k time live, Ensures P (observer k time live) fun _ => P)
  (hstep : ∀ k < count, Ensures P (stepper.step (orbit k) (start + k * dt) dt (k + 1))
    fun outcome env => outcome = .done (orbit (k + 1)) ∧ P env)

include hobserve hstep

theorem stepsFrom_orbit (remaining : Nat) {k : Nat} (hk : k + remaining = count) :
    Ensures P (stepsFrom stepper observer start dt remaining k (start + k * dt) (orbit k))
      fun run _ => run = ⟨orbit count, .finished (start + count * dt)⟩ := by
  induction remaining generalizing k with
  | zero =>
      obtain rfl : k = count := hk
      exact .pure fun _ _ => rfl
  | succ remaining ih =>
      refine (hstep k (by omega)).bind fun outcome => ⟨?_⟩
      rintro env ⟨rfl, henv⟩
      have hrest := (hobserve (k + 1) (start + (k + 1 : Nat) * dt) (orbit (k + 1))).bind fun _ =>
        ih (k := k + 1) (by omega)
      exact hrest.holds env henv

/-- A run whose steps lead from each point of the orbit to the next ends there. -/
theorem steps_orbit (hdt : 0 < dt) :
    Ensures P (steps stepper observer start dt count (orbit 0)) fun run _ =>
      run = ⟨orbit count, .finished (start + count * dt)⟩ := by
  have hcheck : TimeGrid.checkDt dt 1 = .ok () := by
    simp [TimeGrid.checkDt, hdt]
  have hfrom := stepsFrom_orbit observer orbit hobserve hstep count (Nat.zero_add count)
  rw [Nat.cast_zero, zero_mul, add_zero] at hfrom
  unfold steps
  rw [hcheck]
  exact (hobserve 0 start (orbit 0)).bind fun _ => hfrom

end Run

/-! ## Explicit steppers -/

namespace ExplicitStepper

variable [Journal ℝ σ] {system : ContinuousSystem σ ℝ} {f : VelocityField σ n}
  {scheme : ExplicitScheme} {stepper : ExplicitStepper ℝ} {g : (Fin n → ℝ) → ℝ → Fin n → ℝ}

theorem attempt_of_evaluates (h : system.HasVelocity f) (hf : f.Evaluates g)
    (hused : Used system scheme stepper) (y : Fin n → ℝ) (time dt : ℝ) (step : Nat) (env : σ) :
    let result := attempt system stepper (.ofCoords y) time dt step env
    result.1.ending = .done ∧ result.1.value.2 = .ofCoords (scheme.tableau.next g y time dt) := by
  obtain ⟨rfl, hlength, hreused⟩ := hused.reused
  obtain ⟨-, hending, hvalue⟩ :=
    (attempt_step h hreused hlength y time dt step).holds env _ rfl
  rw [Tableau.step_of_evaluates y time dt hf] at hending hvalue
  exact ⟨hending, hvalue⟩

theorem steps_of_evaluates (h : system.HasVelocity f) (hf : f.Evaluates g)
    (hused : Used system scheme stepper) {start dt : ℝ} (hdt : 0 < dt) {x : Nat → Fin n → ℝ}
    (hnext : ∀ k : Nat, scheme.tableau.next g (x k) (start + k * dt) dt = x (k + 1))
    (observer : Run.Observer σ ℝ) (count : Nat) (env : σ) :
    (Run.steps (steppable system scheme) (observer.beside _) start dt count (.ofCoords (x 0))
      (stepper, env)).1 = ⟨.ofCoords (x count), .finished (start + count * dt)⟩ := by
  have hstep (k : Nat) (_ : k < count) :
      Ensures (fun used => Used system scheme used.1)
        ((steppable system scheme).step (.ofCoords (x k)) (start + k * dt) dt (k + 1))
        fun outcome used =>
          outcome = .done (.ofCoords (x (k + 1))) ∧ Used system scheme used.1 := by
    constructor
    intro used hused
    obtain ⟨hending, hvalue⟩ :=
      attempt_of_evaluates h hf hused (x k) (start + k * dt) dt (k + 1) used.2
    rw [hnext] at hvalue
    exact ⟨congr (congrArg Outcome.mk hvalue) hending, hused.attempted ..⟩
  have hrun := Run.steps_orbit (observer.beside _) (fun k => .ofCoords (x k))
    (fun _ _ _ => ⟨fun _ hused => hused⟩) hstep hdt
  exact hrun.holds (stepper, env) hused

end ExplicitStepper

end TimeStepping
