import Mathlib.Algebra.Module.LinearMap.Defs
import Mathlib.Tactic.Module
import TimeStepping.Proofs.Assertions
import TimeStepping.Proofs.Coordinates
import TimeStepping.StepEquation

/-!
# Formulas in coordinates

The backward differentiation formulas over the real numbers.  The residual of a
step takes a weighted mixture of the states before it from the trial state, and the
weights of every formula sum to 1, so that mixtures follow affine maps:
`mix_affine`, `BdfTable.sum_alpha`.
-/

namespace TimeStepping

open Matrix

/-- The sum of the values, each with its weight; weights or values that are left
over are dropped. -/
noncomputable def mix {M : Type} [AddCommMonoid M] [SMul ℝ M] (weights : List ℝ)
    (values : List M) : M :=
  (List.zipWith (· • ·) weights values).sum

section Mixtures

variable {M N : Type} [AddCommGroup M] [Module ℝ M] [AddCommGroup N] [Module ℝ N]

@[simp] theorem mix_nil (values : List M) : mix [] values = 0 :=
  rfl

@[simp] theorem mix_cons (weight : ℝ) (weights : List ℝ) (value : M) (values : List M) :
    mix (weight :: weights) (value :: values) = weight • value + mix weights values := by
  simp [mix]

theorem mix_take {weights : List ℝ} {count : Nat} (h : weights.length ≤ count)
    (values : List M) : mix weights (values.take count) = mix weights values := by
  induction weights generalizing count values with
  | nil => rfl
  | cons weight weights ih =>
      cases values with
      | nil => rw [List.take_nil]
      | cons value values =>
          obtain ⟨count, rfl⟩ : ∃ fewer, count = fewer + 1 := ⟨count - 1, by simp at h; omega⟩
          have hrest : weights.length ≤ count := by simpa using h
          rw [List.take_succ_cons, mix_cons, ih hrest, mix_cons]

theorem mix_replicate_zero (weights : List ℝ) (count : Nat) :
    mix weights (List.replicate count (0 : M)) = 0 := by
  induction weights generalizing count with
  | nil => rfl
  | cons weight weights ih =>
      cases count with
      | zero => rfl
      | succ count => rw [List.replicate_succ, mix_cons, ih, smul_zero, add_zero]

theorem mix_affine {L : M → N} (hL : IsLinearMap ℝ L) (offset : N) {weights : List ℝ}
    {values : List M} (h : weights.length ≤ values.length) :
    mix weights (values.map fun value => L value + offset) =
      L (mix weights values) + weights.sum • offset := by
  induction weights generalizing values with
  | nil => simp [hL.map_zero]
  | cons weight weights ih =>
      cases values with
      | nil => simp at h
      | cons value values =>
          have hlength : weights.length ≤ values.length := by simpa using h
          have hrest := ih hlength
          rw [List.map_cons, mix_cons, hrest, mix_cons, hL.map_add, hL.map_smul, List.sum_cons]
          module

theorem mix_replicate {weights : List ℝ} {count : Nat} (h : weights.length ≤ count) (value : M) :
    mix weights (List.replicate count value) = weights.sum • value := by
  have hzero : IsLinearMap ℝ fun _ : M => (0 : M) := (0 : M →ₗ[ℝ] M).isLinear
  have hmixed := mix_affine hzero value (h.trans (List.length_replicate (a := value)).ge)
  simpa using hmixed

end Mixtures

namespace BdfTable

variable {table : BdfTable ℝ} {size n : Nat}

theorem length_alpha (h : ofSize? size = some table) : table.alpha.length = size := by
  unfold ofSize? at h
  split at h <;> cases h <;> rfl

theorem sum_alpha (h : ofSize? size = some table) : table.alpha.sum = 1 := by
  unfold ofSize? at h
  split at h <;> cases h <;> norm_num

theorem foldlM_axpy (weights : List ℝ) (ys : List (Fin n → ℝ)) (v : Fin n → ℝ) :
    (weights.zip (ys.map Vec.ofCoords)).foldlM (fun r term => Vec.axpy (-term.1) term.2 r)
        (Vec.ofCoords v) =
      (.ok (Vec.ofCoords (v - mix weights ys)) : Except Fault (Vec ℝ)) := by
  induction weights generalizing ys v with
  | nil => simp [pure, Except.pure]
  | cons weight weights ih =>
      cases ys with
      | nil => simp [mix, pure, Except.pure]
      | cons y ys =>
          have hnext : -weight • y + v - mix weights ys =
              v - mix (weight :: weights) (y :: ys) := by
            rw [mix_cons]
            module
          rw [List.map_cons, List.zip_cons_cons, List.foldlM_cons, Vec.axpy_ofCoords, ← hnext]
          exact ih ys _

theorem residual_ofCoords (table : BdfTable ℝ) (dt : ℝ) (x : Fin n → ℝ)
    (ys : List (Fin n → ℝ)) (f : Fin n → ℝ) :
    table.residual dt (Vec.ofCoords x) (ys.map Vec.ofCoords) (Vec.ofCoords f) =
      .ok (Vec.ofCoords (x - mix table.alpha ys - (table.beta * dt) • f)) := by
  have hstart : (-table.beta * dt) • f + x - mix table.alpha ys =
      x - mix table.alpha ys - (table.beta * dt) • f := by
    module
  rw [residual, Vec.scale_ofCoords, Vec.add_ofCoords, ← hstart]
  exact foldlM_axpy table.alpha ys _

theorem jacobian_ofMatrix (table : BdfTable ℝ) (dt : ℝ) (J : Matrix (Fin n) (Fin n) ℝ) :
    table.jacobian dt (Mat.ofMatrix J) = Mat.ofMatrix (1 - (table.beta * dt) • J) := by
  have hsum : (-table.beta * dt) • J + 1 = 1 - (table.beta * dt) • J := by
    module
  rw [jacobian, Mat.scale_ofMatrix, Mat.addIdentity_ofMatrix, hsum]

end BdfTable

/-! ## Evaluations of a step -/

namespace StepEquation

variable {σ : Type} {system : ContinuousSystem σ ℝ} {point : StepPoint ℝ} {stencil : Stencil ℝ}
  {table : BdfTable ℝ} {trial buffer : Vec ℝ} {square : Mat ℝ} {env : σ}

theorem residual_of_velocity (h : BdfTable.ofSize? stencil.size = some table) {f : Vec ℝ}
    (hf : (system.velocity trial point.time buffer env).1 = .done f) :
    (bdf system).residual point stencil trial buffer env =
      (.ofChecked f (table.residual point.dt trial stencil.slots f),
        (system.velocity trial point.time buffer env).2) := by
  simp only [bdf, withTable, h, bind_apply]
  rw [hf]
  rfl

theorem residual_of_undone (h : BdfTable.ofSize? stencil.size = some table)
    (hundone : (system.velocity trial point.time buffer env).1.ending ≠ .done) :
    (bdf system).residual point stencil trial buffer env =
      ((system.velocity trial point.time buffer env).1.mapFailure
          (·.asResidualFailure point.step point.time),
        (system.velocity trial point.time buffer env).2) := by
  simp only [bdf, withTable, h, bind_apply]
  rfl

theorem jacobian_of_evaluated (h : BdfTable.ofSize? stencil.size = some table) {J : Mat ℝ}
    (hJ : (system.jacobian trial point.time square env).1 = .done J) :
    (bdf system).jacobian point stencil trial square env =
      (.done (table.jacobian point.dt J), (system.jacobian trial point.time square env).2) := by
  simp only [bdf, withTable, h, bind_apply]
  rw [hJ]
  rfl

theorem jacobian_of_undone (h : BdfTable.ofSize? stencil.size = some table)
    (hundone : (system.jacobian trial point.time square env).1.ending ≠ .done) :
    (bdf system).jacobian point stencil trial square env =
      ((system.jacobian trial point.time square env).1.mapFailure
          (·.asResidualFailure point.step point.time),
        (system.jacobian trial point.time square env).2) := by
  simp only [bdf, withTable, h, bind_apply]
  rfl

end StepEquation

end TimeStepping
