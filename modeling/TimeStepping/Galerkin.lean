import TimeStepping.System

/-!
# Galerkin reduction

A reduced model of a continuous-time system: states are sought as a reference
plus a combination of the columns of a basis, and velocities are tested against
the same columns.  The reduced model is itself a continuous-time system.
-/

namespace TimeStepping

/-- A full-order system with a basis and a reference state of matching sizes. -/
structure Galerkin (σ α : Type) where
  full : ContinuousSystem σ α
  basis : Mat α
  reference : Vec α
  rows_basis : basis.rows = full.velocityBuffer.size
  size_reference : reference.size = full.velocityBuffer.size

namespace Galerkin

variable {σ α : Type}

/-- Reduce a system by a basis around a reference state, if the sizes match. -/
def ofBasis (full : ContinuousSystem σ α) (basis : Mat α) (reference : Vec α) :
    Except (Failure α) (Galerkin σ α) :=
  if h : basis.rows = full.velocityBuffer.size ∧ reference.size = full.velocityBuffer.size then
    .ok ⟨full, basis, reference, h.1, h.2⟩
  else
    .error (.configuration
      (.decoderShape basis.rows reference.size full.velocityBuffer.size))

variable [Scalar α]

/-- The full vector with the given reduced coordinates, without the reference. -/
def decode (model : Galerkin σ α) (reduced : Vec α) : Except Fault (Vec α) :=
  model.basis.apply reduced

def reconstruct (model : Galerkin σ α) (reduced : Vec α) : Except Fault (Vec α) := do
  Vec.add (← model.decode reduced) model.reference

def project (model : Galerkin σ α) (full : Vec α) : Except Fault (Vec α) := do
  model.basis.applyTranspose (← Vec.sub full model.reference)

def system (model : Galerkin σ α) : ContinuousSystem σ α where
  velocityBuffer := Vec.zeros model.basis.cols
  jacobianBuffer := Mat.zeros model.basis.cols model.basis.cols
  velocity state time buffer :=
    match model.reconstruct state with
    | .error cause => pure ⟨buffer, .fault cause⟩
    | .ok full => do
        let velocity ← model.full.velocity full time model.full.velocityBuffer
        match velocity.ending with
        | .done =>
            pure (.ofChecked buffer do
              Vec.store buffer (← model.basis.applyTranspose velocity.value))
        | ending => pure ⟨buffer, ending⟩
  jacobian state time buffer :=
    match model.reconstruct state with
    | .error cause => pure ⟨buffer, .fault cause⟩
    | .ok full => do
        let jacobian ← model.full.jacobian full time model.full.jacobianBuffer
        match jacobian.ending with
        | .done =>
            pure (.ofChecked buffer do
              Mat.store buffer (← model.basis.mulTranspose (← jacobian.value.mul model.basis)))
        | ending => pure ⟨buffer, ending⟩

end Galerkin

end TimeStepping
