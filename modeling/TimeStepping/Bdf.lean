import TimeStepping.Stencil
import TimeStepping.System

/-!
# Backward differentiation formulas

The coefficient tables of the formulas over one, two and three states, for
equally long steps, and the residual and Jacobian a table gives to one step:

    R(y) = y - sum_j alpha_j * y_(n-j) - beta * dt * f(y, t)
-/

namespace TimeStepping

/-- The coefficients of one formula: the weights of the past states, newest
first, and the weight of the velocity. -/
structure BdfTable (α : Type) where
  alpha : List α
  beta : α

namespace BdfTable

variable {α : Type} [Scalar α]

/-- The formula over `size` past states; there is none but for sizes 1 to 3. -/
def ofSize? : (size : Nat) → Option (BdfTable α)
  | 1 => some ⟨[1], 1⟩
  | 2 => some ⟨[Scalar.ratio 4 3, -Scalar.ratio 1 3], Scalar.ratio 2 3⟩
  | 3 =>
      some ⟨[Scalar.ratio 18 11, -Scalar.ratio 9 11, Scalar.ratio 2 11], Scalar.ratio 6 11⟩
  | _ => none

theorem exists_ofSize? {size : Nat} (hpos : 0 < size) (hle : size ≤ 3) :
    ∃ table : BdfTable α, ofSize? size = some table := by
  match size, hpos, hle with
  | 1, _, _ => exact ⟨_, rfl⟩
  | 2, _, _ => exact ⟨_, rfl⟩
  | 3, _, _ => exact ⟨_, rfl⟩

/-- The residual of a step of length `dt` at the state `trial`, where the
velocity is `velocity`. -/
def residual (table : BdfTable α) (dt : α) (trial : Vec α) (history : List (Vec α))
    (velocity : Vec α) : Except Fault (Vec α) := do
  let start ← Vec.add (Vec.scale (-table.beta * dt) velocity) trial
  (table.alpha.zip history).foldlM (fun r term => Vec.axpy (-term.1) term.2 r) start

/-- The Jacobian of the residual, where the Jacobian of the velocity is `jacobian`. -/
def jacobian (table : BdfTable α) (dt : α) (jacobian : Mat α) : Mat α :=
  (jacobian.scale (-table.beta * dt)).addIdentity

end BdfTable

end TimeStepping
