import TimeStepping.System

/-!
# Polynomial systems

Continuous-time systems whose velocity is a sum of monomials in the time and the
components of the state, with the Jacobian taken monomial by monomial.
-/

namespace TimeStepping

/-- A monomial that contributes to the velocity of one component: a coefficient,
a power of the time, and factors, each a component of the state with its exponent. -/
structure Monomial (α : Type) where
  component : Nat
  coefficient : α
  timePower : Nat
  factors : List (Nat × Nat)

namespace Monomial

variable {α : Type} [Scalar α]

def timesPower (v x : α) : (n : Nat) → α
  | 0 => v
  | n + 1 => timesPower (v * x) x n

/-- Multiply `v` by every factor in order.  A factor with exponent 0 is not looked up. -/
def timesFactors (state : Vec α) (v : α) (factors : List (Nat × Nat)) : Except Fault α :=
  factors.foldlM
    (fun v factor =>
      if factor.2 = 0 then .ok v
      else do pure (timesPower v (← Vec.entry state factor.1) factor.2))
    v

def value (m : Monomial α) (state : Vec α) (time : α) : Except Fault α :=
  timesFactors state (timesPower m.coefficient time m.timePower) m.factors

def lowered (factors : List (Nat × Nat)) (position : Nat) : List (Nat × Nat) :=
  factors.modify position fun factor => (factor.1, factor.2 - 1)

/-- The derivative by the component of each factor that has an exponent, taken
through that factor alone: pairs of component and value. -/
def derivatives (m : Monomial α) (state : Vec α) (time : α) : Except Fault (List (Nat × α)) :=
  (m.factors.zipIdx.filter fun entry => entry.1.2 ≠ 0).mapM fun entry => do
    let v := timesPower (m.coefficient * ((entry.1.2 : Nat) : α)) time m.timePower
    pure (entry.1.1, ← timesFactors state v (lowered m.factors entry.2))

end Monomial

structure Polynomial (α : Type) where
  dimension : Nat
  terms : List (Monomial α)

namespace Polynomial

variable {α : Type} [Scalar α]

def velocity (p : Polynomial α) (state : Vec α) (time : α) (buffer : Vec α) :
    Except Fault (Vec α) :=
  p.terms.foldlM
    (fun f m => do
      let v ← m.value state time
      if m.component < f.size then pure (f.modify m.component (· + v))
      else .error .outOfBounds)
    (Vec.zeros buffer.size)

def jacobian (p : Polynomial α) (state : Vec α) (time : α) (buffer : Mat α) :
    Except Fault (Mat α) :=
  p.terms.foldlM
    (fun j m => do
      (← m.derivatives state time).foldlM
        (fun j derivative =>
          if m.component < j.rows ∧ derivative.1 < j.cols then
            pure (j.modify m.component derivative.1 (· + derivative.2))
          else .error .outOfBounds)
        j)
    (Mat.zeros buffer.rows buffer.cols)

def system {σ : Type} (p : Polynomial α) : ContinuousSystem σ α where
  velocityBuffer := Vec.zeros p.dimension
  jacobianBuffer := Mat.zeros p.dimension p.dimension
  velocity state time buffer := pure (.ofChecked buffer (p.velocity state time buffer))
  jacobian state time buffer := pure (.ofChecked buffer (p.jacobian state time buffer))

end Polynomial

end TimeStepping
