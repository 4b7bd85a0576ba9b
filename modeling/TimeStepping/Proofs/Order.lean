import Mathlib.Algebra.Polynomial.Taylor
import Mathlib.Tactic.IntervalCases
import TimeStepping.Proofs.Formulas
import TimeStepping.Proofs.Iteration
import TimeStepping.Proofs.Systems

/-!
# Order of the backward differentiation formulas

The weights of the formula over `k` states meet the order conditions of degree up to
`k`.  By Taylor expansion around the new point, the equation of a step then holds on
every solution that is a polynomial of that degree, and a Newton iteration that starts
on it is done at once.  Main statement: `StepEquation.polynomials_are_roots`.
-/

open Polynomial

namespace TimeStepping

/-! ## Mixtures of values of a polynomial -/

section Mixtures

variable {n : Nat}

theorem mix_apply (weights : List ℝ) (values : List (Fin n → ℝ)) (i : Fin n) :
    mix weights values i = mix weights (values.map (· i)) := by
  induction weights generalizing values with
  | nil => rfl
  | cons weight weights ih =>
      cases values with
      | nil => simp [mix]
      | cons value values =>
          rw [List.map_cons, mix_cons, mix_cons, ← ih]
          rfl

theorem mix_mul_left (c : ℝ) (weights values : List ℝ) :
    mix weights (values.map (c * ·)) = c * mix weights values := by
  induction weights generalizing values with
  | nil => simp
  | cons weight weights ih =>
      cases values with
      | nil => simp [mix]
      | cons value values =>
          rw [List.map_cons, mix_cons, mix_cons, ih, smul_eq_mul, smul_eq_mul]
          ring

theorem mix_sum (weights offsets : List ℝ) (f : Nat → ℝ → ℝ) (count : Nat) :
    mix weights (offsets.map fun s => ∑ m ∈ Finset.range count, f m s) =
      ∑ m ∈ Finset.range count, mix weights (offsets.map (f m)) := by
  induction weights generalizing offsets with
  | nil => simp
  | cons weight weights ih =>
      cases offsets with
      | nil => simp [mix]
      | cons s offsets =>
          simp only [List.map_cons, mix_cons, ih, Finset.sum_add_distrib, smul_eq_mul,
            Finset.mul_sum]

/-- A mixture of the values at the given offsets, in units of `dt`, by the derivatives
at the centre. -/
theorem mix_eval (weights offsets : List ℝ) {p : ℝ[X]} {count : Nat} (hp : p.natDegree < count)
    (centre dt : ℝ) :
    mix weights (offsets.map fun s => p.eval (centre + s * dt)) =
      ∑ m ∈ Finset.range count,
        (taylor centre p).coeff m * dt ^ m * mix weights (offsets.map (· ^ m)) := by
  have hexpansion : ∀ s : ℝ, p.eval (centre + s * dt) =
      ∑ m ∈ Finset.range count, (taylor centre p).coeff m * dt ^ m * s ^ m := by
    intro s
    have hdegree : (taylor centre p).natDegree < count := by rwa [natDegree_taylor]
    rw [add_comm centre, ← taylor_eval, eval_eq_sum_range' hdegree]
    refine Finset.sum_congr rfl fun m _ => ?_
    rw [mul_pow]
    ring
  simp only [hexpansion]
  rw [mix_sum]
  refine Finset.sum_congr rfl fun m _ => ?_
  rw [← mix_mul_left, List.map_map]
  rfl

end Mixtures

namespace BdfTable

variable {table : BdfTable ℝ} {size : Nat}

/-- How far before the new state the states of a history lie, in time steps. -/
noncomputable def offsets (size : Nat) : List ℝ :=
  (List.range size).map fun j : Nat => -((j : ℝ) + 1)

/-- The formula over `size` states is exact on the powers up to that one. -/
theorem order_condition (h : ofSize? size = some table) {m : Nat} (hm : m ≤ size) :
    mix table.alpha ((offsets size).map (· ^ m)) =
      if m = 0 then 1 else if m = 1 then -table.beta else 0 := by
  unfold ofSize? at h
  split at h <;> cases h
  · interval_cases m <;> norm_num [offsets, mix, List.range_succ]
  · interval_cases m <;> norm_num [offsets, mix, List.range_succ]
  · interval_cases m <;> norm_num [offsets, mix, List.range_succ]

/-- The mixture of equally spaced earlier values of a polynomial is what the formula
says the next value and derivative are short of. -/
theorem mix_history (h : ofSize? size = some table) (hpos : 0 < size) {p : ℝ[X]}
    (hp : p.natDegree ≤ size) (t dt : ℝ) :
    mix table.alpha ((List.range size).map fun j : Nat => p.eval (t - j * dt)) =
      p.eval (t + dt) - table.beta * dt * p.derivative.eval (t + dt) := by
  have hoffsets : ((List.range size).map fun j : Nat => p.eval (t - j * dt)) =
      (offsets size).map fun s => p.eval (t + dt + s * dt) := by
    rw [offsets, List.map_map]
    refine List.map_congr_left fun j _ => ?_
    simp only [Function.comp_apply]
    congr 1
    ring
  rw [hoffsets, mix_eval _ _ (Nat.lt_succ_of_le hp)]
  calc
    _ = ∑ m ∈ Finset.range (size + 1), (taylor (t + dt) p).coeff m * dt ^ m *
          if m = 0 then 1 else if m = 1 then -table.beta else 0 := by
        refine Finset.sum_congr rfl fun m hm => ?_
        rw [order_condition h (Finset.mem_range_succ_iff.1 hm)]
    _ = (taylor (t + dt) p).coeff 0 - table.beta * dt * (taylor (t + dt) p).coeff 1 := by
        obtain ⟨extra, rfl⟩ := Nat.exists_eq_succ_of_ne_zero hpos.ne'
        rw [Finset.sum_range_succ', Finset.sum_range_succ']
        simp
        ring
    _ = _ := by rw [taylor_coeff_zero, taylor_coeff_one]

end BdfTable

/-! ## Solutions that are polynomials -/

section Solutions

variable {n : Nat}

/-- The state of a solution with polynomial components, as it is stored. -/
noncomputable def stateAt (p : Fin n → ℝ[X]) (t : ℝ) : Vec ℝ :=
  .ofCoords fun i => (p i).eval t

theorem BdfTable.residual_stateAt {table : BdfTable ℝ} {size : Nat}
    (h : ofSize? size = some table) (hpos : 0 < size) {p : Fin n → ℝ[X]}
    (hp : ∀ i, (p i).natDegree ≤ size) (t dt : ℝ) :
    table.residual dt (stateAt p (t + dt))
        ((List.range size).map fun j : Nat => stateAt p (t - j * dt))
        (stateAt (fun i => (p i).derivative) (t + dt)) =
      .ok (Vec.zeros n) := by
  have hhistory : ((List.range size).map fun j : Nat => stateAt p (t - j * dt)) =
      ((List.range size).map fun (j : Nat) i => (p i).eval (t - j * dt)).map Vec.ofCoords := by
    rw [List.map_map]
    rfl
  rw [hhistory, stateAt, stateAt, residual_ofCoords, Vec.zeros_eq_ofCoords]
  congr 2
  funext i
  have hmix := mix_history h hpos (hp i) t dt
  simp only [Pi.sub_apply, Pi.smul_apply, Pi.zero_apply, smul_eq_mul, mix_apply, List.map_map,
    Function.comp_def, hmix]
  ring

end Solutions

namespace Newton

variable {σ : Type} [Journal ℝ σ]

/-- An iteration that starts on a root stays there. -/
theorem iterate_of_root {system : AlgebraicSystem σ ℝ} {settings : Settings ℝ} {root : Vec ℝ}
    {n : Nat} (hroot : ∀ buffer env, (system.residual root buffer env).1 = .done (Vec.zeros n))
    (hsettings : 0 ≤ settings.residualAbs) (linear : LinearSolver ℝ) (remaining : Nat)
    (initial : ℝ) (residual : Vec ℝ) (jacobian : Mat ℝ) (env : σ) :
    let report := (iterate settings linear system remaining 0 initial root residual jacobian env).1
    report.state = root ∧ report.iterations = 0 ∧ (0 < remaining → report.ending = .done) := by
  intro report
  cases remaining with
  | zero => exact ⟨rfl, rfl, by simp⟩
  | succ remaining =>
      have hmet : settings.residualMet 0 0 (0 : ℝ) := by simp [Settings.residualMet, hsettings]
      have hreport : report = ⟨root, 0, .done⟩ := by
        refine iterate_of_met remaining (hroot residual env) rfl ?_
        rwa [if_pos rfl, Vec.norm_zeros]
      rw [hreport]
      exact ⟨rfl, rfl, fun _ => rfl⟩

end Newton

namespace StepEquation

/-- Order of the formulas.  On a solution whose components are polynomials of degree up
to the number of states, with equally spaced states behind it, the residual of the next
step is zero, whatever the velocity is elsewhere, and a Newton iteration that starts
there makes no correction. -/
theorem polynomials_are_roots {σ : Type} {n size : Nat} (hpos : 0 < size) (hle : size ≤ 3)
    (p : Fin n → ℝ[X]) (hp : ∀ i, (p i).natDegree ≤ size) (t dt : ℝ)
    (system : ContinuousSystem σ ℝ)
    (hsolution : ∀ buffer env, (system.velocity (stateAt p (t + dt)) (t + dt) buffer env).1 =
      .done (stateAt (fun i => (p i).derivative) (t + dt)))
    (stencil : Stencil ℝ)
    (hslots : stencil.slots = (List.range size).map fun j : Nat => stateAt p (t - j * dt))
    (step : Nat) :
    let equations := (bdf system).system ⟨step, t + dt, dt⟩ stencil
    (∀ buffer env, (equations.residual (stateAt p (t + dt)) buffer env).1 =
      .done (Vec.zeros n)) ∧
    ∀ [Journal ℝ σ] (settings : Newton.Settings ℝ) (linear : Newton.LinearSolver ℝ) (env : σ),
      0 ≤ settings.residualAbs →
        let report := (Newton.run settings linear equations (stateAt p (t + dt)) env).1
        report.state = stateAt p (t + dt) ∧ report.iterations = 0 ∧
          (0 < settings.maxIterations → report.ending = .done) := by
  intro equations
  obtain ⟨table, htable⟩ := BdfTable.exists_ofSize? (α := ℝ) hpos hle
  have hsize : stencil.size = size := by
    rw [← Stencil.length_slots, hslots, List.length_map, List.length_range]
  have hresidual := BdfTable.residual_stateAt htable hpos hp t dt
  have hroot : ∀ buffer env, (equations.residual (stateAt p (t + dt)) buffer env).1 =
      .done (Vec.zeros n) := by
    intro buffer env
    change ((bdf system).residual _ stencil _ buffer env).1 = _
    rw [residual_of_velocity (hsize ▸ htable) (hsolution buffer env), hslots, hresidual]
    rfl
  exact ⟨hroot, fun settings linear env hsettings =>
    Newton.iterate_of_root hroot hsettings linear settings.maxIterations 0 _ _ env⟩

/-- The solution through minus the square of the time has the velocity `y - y²` at 1. -/
theorem parabola_is_root :
    let equations := (bdf .saturating).system ⟨2, 0 + 1, 1⟩ ⟨.ofCoords ![0], [.ofCoords ![-1]]⟩
    let report := (Newton.run .standard Mat.solve equations (.ofCoords ![-1]) ()).1
    (equations.residual (.ofCoords ![-1]) equations.residualBuffer ()).1 = .done (Vec.zeros 1) ∧
      report.state = .ofCoords ![-1] ∧ report.iterations = 0 ∧ report.ending = .done := by
  intro equations report
  have hstate : ∀ t : ℝ, stateAt ![-X ^ 2] t = .ofCoords ![-t ^ 2] := by
    intro t
    exact Vec.ofCoords_ext_single (by simp)
  have hvelocity : ∀ buffer env,
      (ContinuousSystem.saturating.velocity (stateAt ![-X ^ 2] (0 + 1)) (0 + 1) buffer env).1 =
        .done (stateAt (fun i => (![-X ^ 2] i).derivative) (0 + 1)) := by
    intro buffer env
    rw [hstate, ContinuousSystem.velocity_saturating]
    exact congrArg Outcome.done (Vec.ofCoords_ext_single (by norm_num))
  have hslots : (⟨.ofCoords ![0], [.ofCoords ![-1]]⟩ : Stencil ℝ).slots =
      (List.range 2).map fun j : Nat => stateAt ![-X ^ 2] (0 - j * 1) := by
    simp [hstate, Stencil.slots, List.range_succ]
  have hdegree : ∀ i, ((![-X ^ 2] : Fin 1 → ℝ[X]) i).natDegree ≤ 2 := by
    intro i
    obtain rfl : i = 0 := Subsingleton.elim i 0
    exact (natDegree_neg _).trans_le (natDegree_X_pow_le 2)
  obtain ⟨hroot, hnewton⟩ :=
    polynomials_are_roots two_pos (by norm_num) ![-X ^ 2] hdegree 0 1 _ hvelocity _ hslots 2
  have hone : stateAt ![-X ^ 2] (0 + 1) = .ofCoords ![-1] := by
    rw [hstate]
    norm_num
  rw [hone] at hroot hnewton
  have htolerance : 0 ≤ (Newton.Settings.standard : Newton.Settings ℝ).residualAbs := by
    norm_num [Newton.Settings.standard, Newton.Settings.withTolerance]
  obtain ⟨hlast, hcount, hdone⟩ := hnewton .standard Mat.solve () htolerance
  exact ⟨hroot _ (), hlast, hcount, hdone (by norm_num [Newton.Settings.standard,
    Newton.Settings.withTolerance])⟩

end StepEquation

end TimeStepping
