import Mathlib.Analysis.Real.Sqrt
import Mathlib.Tactic.FieldSimp
import Mathlib.Tactic.Linarith
import Mathlib.Tactic.NormNum
import Mathlib.Tactic.Positivity
import TimeStepping.Run.StepControl
import TimeStepping.Run.TimeGrid

/-!
# Exact arithmetic

The real numbers as scalars.  Every number is finite, and comparisons decide the
order of the reals.
-/

namespace TimeStepping

noncomputable instance : Scalar ℝ where
  decidableLT := Real.decidableLT
  decidableLE := Real.decidableLE
  abs x := |x|
  sqrt := Real.sqrt
  isZero x := decide (x = 0)
  isFinite _ := true

namespace Scalar

@[simp] theorem abs_real (x : ℝ) : Scalar.abs x = |x| := rfl

@[simp] theorem sqrt_real (x : ℝ) : Scalar.sqrt x = Real.sqrt x := rfl

@[simp] theorem isZero_real (x : ℝ) : Scalar.isZero x = decide (x = 0) := rfl

@[simp] theorem isFinite_real (x : ℝ) : Scalar.isFinite x = true := rfl

@[simp] theorem ratio_real (p q : Nat) : (Scalar.ratio p q : ℝ) = p / q := rfl

@[simp] theorem larger_real (x y : ℝ) : Scalar.larger x y = max x y := by
  unfold larger
  split
  · rename_i h
    exact (max_eq_left_of_lt h).symm
  · rename_i h
    exact (max_eq_right (not_lt.1 h)).symm

end Scalar

namespace TimeGrid

theorem tolerance_real (final : ℝ) : tolerance final = 1e-12 * max |final| 1 := by
  simp [tolerance]
  norm_num

theorem tolerance_pos (final : ℝ) : 0 < tolerance final := by
  rw [tolerance_real]
  positivity

end TimeGrid

end TimeStepping
