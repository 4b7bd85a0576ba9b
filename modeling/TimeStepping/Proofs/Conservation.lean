import Mathlib.Algebra.BigOperators.Fin
import TimeStepping.Proofs.Burgers
import TimeStepping.Proofs.Explicit.Orbits

/-!
# Conservation for the Burgers equation

What flows out of a cell flows into the next one, so the cells as a whole change only by
what passes the two ends and by the sources: `Burgers.width_mul_sum_rates`.  A forward
Euler step takes that over, and a run of such steps adds it up: `Burgers.conservative`.
-/

namespace TimeStepping

namespace Burgers

variable {σ : Type} {n : Nat}

/-- The centers of the cells, in cell widths from the left end. -/
theorem ofCells_succ (parameters : Parameters ℝ) (n : Nat) :
    ∃ model, ofCells parameters (n + 1) = .ok model ∧ model.parameters = parameters ∧
      (n + 1) * model.width = 100 ∧
      model.grid = .ofCoords fun i : Fin (n + 1) => (i + 1 / 2) * model.width := by
  have hcells : ((n : ℝ) + 1) ≠ 0 := n.cast_add_one_ne_zero
  refine ⟨_, if_neg n.succ_ne_zero, rfl, ?_, congrArg Array.ofFn (funext fun i => ?_)⟩
  · simp
    field_simp
  · simp
    ring

/-! ## Fluxes and sources in total -/

/-- Every cell but the last is upwind of another one, and the inflow is upwind of the
first. -/
theorem sum_upwind_sq (model : Burgers ℝ) (u : Fin (n + 1) → ℝ) :
    ∑ i : Fin (n + 1), model.upwind (.ofCoords u) i ^ 2 + u (Fin.last n) ^ 2 =
      model.parameters.inflow ^ 2 + ∑ i, u i ^ 2 := by
  have hupwind (i : Fin n) : model.upwind (.ofCoords u) i.succ = u i.castSucc :=
    Vec.getD_ofCoords u i.castSucc 0
  rw [Fin.sum_univ_succ, Fin.sum_univ_castSucc fun i => u i ^ 2, add_assoc]
  simp only [hupwind]
  rfl

theorem width_mul_sum_flux (model : Burgers ℝ) (hwidth : model.width ≠ 0) (u : Fin (n + 1) → ℝ) :
    model.width * ∑ i : Fin (n + 1), model.flux (.ofCoords u) i =
      (model.parameters.inflow ^ 2 - u (Fin.last n) ^ 2) / 2 := by
  have htelescoped := model.sum_upwind_sq u
  simp only [flux_ofCoords, ← Finset.mul_sum, ← sq, Finset.sum_sub_distrib]
  field_simp
  linarith

variable [Exponential ℝ]

/-- The rate at which the total changes: what flows in, less what flows out, and the
sources. -/
noncomputable def influx (model : Burgers ℝ) (u : Fin (n + 1) → ℝ) : ℝ :=
  (model.parameters.inflow ^ 2 - u (Fin.last n) ^ 2) / (2 : Nat) +
    model.width * ∑ i : Fin (n + 1), model.source ((i + 1 / (2 : Nat)) * model.width)

theorem width_mul_sum_rates {model : Burgers ℝ} (hwidth : model.width ≠ 0)
    (hgrid : model.grid = .ofCoords fun i : Fin (n + 1) => (i + 1 / 2) * model.width)
    (u : Fin (n + 1) → ℝ) : model.width * ∑ i, model.rates u i = model.influx u := by
  have hcenter (i : Fin (n + 1)) : model.grid.getD i 0 = (i + 1 / 2) * model.width := by
    rw [hgrid, Vec.getD_ofCoords]
  simp only [rates, hcenter, Finset.sum_add_distrib, mul_add, influx, Nat.cast_ofNat,
    model.width_mul_sum_flux hwidth]

/-! ## Forward Euler steps -/

theorem size_of_reused {model : Burgers ℝ} {buffer : Vec ℝ}
    (h : (model.system : ContinuousSystem σ ℝ).Reused buffer) : buffer.size = model.cells := by
  induction h with
  | new => exact Array.size_replicate
  | @left buffer before state time env ih =>
      change (Outcome.ofChecked buffer (model.velocity state buffer)).value.size = _
      unfold velocity
      split
      · exact ih
      · exact Array.size_mapIdx.trans ih

theorem hasVelocity {model : Burgers ℝ} (hcells : model.cells = n) (hpos : 0 < n) :
    (model.system : ContinuousSystem σ ℝ).HasVelocity
      fun (u : Fin n → ℝ) _ => pure (.done (model.rates u)) := by
  constructor
  intro buffer hbuffer u time
  constructor
  rintro env _ rfl
  have hsize := (size_of_reused hbuffer).trans hcells
  have hdone : (model.system.velocity (.ofCoords u) time buffer env).1 =
      .done (.ofCoords (model.rates u)) :=
    (model.hasResidual hcells hpos time).eval (Set.mem_univ u) hsize env
  exact ⟨rfl, congrArg Outcome.ending hdone, fun _ => congrArg Outcome.value hdone⟩

/-- The cells after any number of forward Euler steps. -/
noncomputable def eulerOrbit (model : Burgers ℝ) (dt : ℝ) (u : Fin n → ℝ) (count : Nat) :
    Fin n → ℝ :=
  (fun v => v + dt • model.rates v)^[count] u

theorem eulerOrbit_succ (model : Burgers ℝ) (dt : ℝ) (u : Fin n → ℝ) (count : Nat) :
    model.eulerOrbit dt u (count + 1) = model.eulerOrbit dt u count +
      dt • model.rates (model.eulerOrbit dt u count) :=
  Function.iterate_succ_apply' ..

theorem width_mul_sum_eulerOrbit {model : Burgers ℝ} (hwidth : model.width ≠ 0)
    (hgrid : model.grid = .ofCoords fun i : Fin (n + 1) => (i + 1 / 2) * model.width)
    (dt : ℝ) (u : Fin (n + 1) → ℝ) (count : Nat) :
    model.width * ∑ i, model.eulerOrbit dt u count i =
      model.width * ∑ i, u i +
        dt * ∑ k ∈ Finset.range count, model.influx (model.eulerOrbit dt u k) := by
  induction count with
  | zero => simp [eulerOrbit]
  | succ count ih =>
      calc model.width * ∑ i, model.eulerOrbit dt u (count + 1) i
          = model.width * ∑ i, model.eulerOrbit dt u count i +
              dt * (model.width * ∑ i, model.rates (model.eulerOrbit dt u count) i) := by
            simp only [eulerOrbit_succ, Pi.add_apply, Pi.smul_apply, smul_eq_mul,
              Finset.sum_add_distrib, ← Finset.mul_sum]
            ring
        _ = model.width * ∑ i, u i + dt * ∑ k ∈ Finset.range (count + 1),
              model.influx (model.eulerOrbit dt u k) := by
            rw [ih, width_mul_sum_rates hwidth hgrid, Finset.sum_range_succ]
            ring

/-- The Burgers equation is conservative.  The total of the cells, each weighed by its
width, changes at the rate at which the inflow and the sources add to it and the outflow
takes from it; in a forward Euler run it changes by the time step times the sum of these
rates over the steps. -/
theorem conservative [Journal ℝ σ] (parameters : Parameters ℝ) (n : Nat) :
    ∃ model, ofCells parameters (n + 1) = .ok model ∧ model.parameters = parameters ∧
      (n + 1) * model.width = 100 ∧
      model.grid = .ofCoords (fun i : Fin (n + 1) => (i + 1 / 2) * model.width) ∧
      (∀ (u : Fin (n + 1) → ℝ) (time : ℝ) (buffer : Vec ℝ) (env : σ), buffer.size = n + 1 →
        ∃ f : Fin (n + 1) → ℝ, model.system.velocity (.ofCoords u) time buffer env =
            (.done (.ofCoords f), env) ∧
          model.width * ∑ i, f i = model.influx u) ∧
      ∀ (start dt : ℝ), 0 < dt → ∀ u : Fin (n + 1) → ℝ,
        ∃ states : Nat → Fin (n + 1) → ℝ, states 0 = u ∧ ∀ (stepper : ExplicitStepper ℝ),
          ExplicitStepper.Used (model.system : ContinuousSystem σ ℝ) .euler stepper →
          ∀ (observer : Run.Observer σ ℝ) (env : σ) (count : Nat),
            (Run.steps (ExplicitStepper.steppable model.system .euler) (observer.beside _) start dt
              count (.ofCoords u) (stepper, env)).1 =
                ⟨.ofCoords (states count), .finished (start + count * dt)⟩ ∧
            model.width * ∑ i, states count i - model.width * ∑ i, u i =
              dt * ∑ k ∈ Finset.range count, model.influx (states k) := by
  obtain ⟨model, hmodel, hparameters, hwidth, hgrid⟩ := ofCells_succ parameters n
  have hcells : model.cells = n + 1 := by rw [cells, hgrid, Vec.size_ofCoords]
  have hne : model.width ≠ 0 := by
    rintro hzero
    norm_num [hzero] at hwidth
  refine ⟨model, hmodel, hparameters, hwidth, hgrid, fun u time buffer env hbuffer => ?_,
    fun start dt hdt u => ⟨model.eulerOrbit dt u, rfl, fun stepper hused observer env count => ?_⟩⟩
  · refine ⟨model.rates u, Prod.ext ?_ rfl, width_mul_sum_rates hne hgrid u⟩
    exact (model.hasResidual hcells n.succ_pos time).eval (Set.mem_univ u) hbuffer env
  · have hnext (k : Nat) : ExplicitScheme.euler.tableau.next (fun v _ => model.rates v)
        (model.eulerOrbit dt u k) (start + k * dt) dt = model.eulerOrbit dt u (k + 1) := by
      rw [Tableau.next_euler, eulerOrbit_succ]
    refine ⟨ExplicitStepper.steps_of_evaluates (hasVelocity hcells n.succ_pos)
      (fun _ _ _ => rfl) hused hdt hnext observer count env, ?_⟩
    rw [width_mul_sum_eulerOrbit hne hgrid, add_sub_cancel_left]

omit [Exponential ℝ] in
/-- Two cells that hold 200 in all, with 25 and 9 as the squares at the ends, and sources
of 25 and 75. -/
theorem conservative_two_cells :
    let _ : Exponential ℝ := ⟨id⟩
    let silent : Run.Observer Unit ℝ := fun _ _ _ => pure ()
    ∃ (model : Burgers ℝ) (v : Fin 2 → ℝ), ofCells ⟨5, 1, 1⟩ 2 = .ok model ∧
      (Run.steps (ExplicitStepper.steppable (model.system : ContinuousSystem Unit ℝ) .euler)
        (silent.beside _) 0 1 1 (.ofCoords ![1, 3])
        (.fresh .euler (model.system : ContinuousSystem Unit ℝ), ())).1 =
          ⟨.ofCoords v, .finished 1⟩ ∧
      model.width * ∑ i, v i = 200 + (8 + 50 * (25 + 75)) := by
  intro _ silent
  obtain ⟨model, hmodel, hparameters, hwidth, -, -, hruns⟩ :=
    conservative (σ := Unit) (⟨5, 1, 1⟩ : Parameters ℝ) 1
  obtain ⟨states, hstart, hstates⟩ := hruns 0 1 one_pos ![1, 3]
  obtain ⟨hrun, htotal⟩ := hstates (.fresh .euler model.system) .fresh silent () 1
  have hfifty : model.width = 50 := by
    norm_num at hwidth
    linarith
  refine ⟨model, states 1, hmodel, ?_, ?_⟩
  · rw [hrun]
    norm_num
  · have hexp (x : ℝ) : Exponential.exp x = x := rfl
    have hlast : (![1, 3] : Fin 2 → ℝ) (Fin.last 1) = 3 := rfl
    have hinflux : model.influx (states 0) = 8 + 50 * (25 + 75) := by
      simp only [influx, source, hstart, hparameters, hfifty, hexp, hlast]
      norm_num [Fin.sum_univ_succ]
    have hinitial : model.width * ∑ i, (![1, 3] : Fin 2 → ℝ) i = 200 := by
      norm_num [hfifty, Fin.sum_univ_two]
    rw [Finset.sum_range_one, hinflux, one_mul, hinitial] at htotal
    exact sub_eq_iff_eq_add'.1 htotal

end Burgers

end TimeStepping
