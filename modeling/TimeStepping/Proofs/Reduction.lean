import Mathlib.LinearAlgebra.Matrix.Notation
import TimeStepping.Galerkin
import TimeStepping.Proofs.Formulas

/-!
# Reduced step equations

Reducing a system by an orthonormal basis and posing the equation of a step commute:
the residual of the reduced model is the full residual at the reconstructed states,
tested against the basis, and its Jacobian is the full one between the basis and its
transpose.  The reference drops out because the weights of every formula sum to 1,
and the identity in the Jacobian stays because the basis is orthonormal.
-/

namespace TimeStepping

open Matrix

variable {σ : Type}

/-- Completed evaluations have the shape that the number of unknowns asks for. -/
structure ContinuousSystem.Sized {α : Type} (system : ContinuousSystem σ α) : Prop where
  velocity (state : Vec α) (time : α) (buffer : Vec α) (env : σ)
    (h : (system.velocity state time buffer env).1.ending = .done) :
    (system.velocity state time buffer env).1.value.size = system.velocityBuffer.size
  jacobian (state : Vec α) (time : α) (buffer : Mat α) (env : σ)
    (h : (system.jacobian state time buffer env).1.ending = .done) :
    (system.jacobian state time buffer env).1.value.rows = system.velocityBuffer.size ∧
      (system.jacobian state time buffer env).1.value.cols = system.velocityBuffer.size

namespace Galerkin

/-- The product of the transposed basis with the basis is the identity. -/
def Orthonormal (model : Galerkin σ ℝ) : Prop :=
  model.basis.mulTranspose model.basis =
    .ok (Mat.zeros model.basis.cols model.basis.cols).addIdentity

/-- The stencil whose states are the reconstructions of reduced ones. -/
def Reconstructs (model : Galerkin σ ℝ) (reduced full : Stencil ℝ) : Prop :=
  List.Forall₂ (fun z y => model.reconstruct z = .ok y) reduced.slots full.slots

/-! ## A model in coordinates -/

/-- The matrix and the tuple that a model stores as its basis and its reference. -/
structure Coordinates (model : Galerkin σ ℝ) {n k : Nat} (Φ : Matrix (Fin n) (Fin k) ℝ)
    (r : Fin n → ℝ) : Prop where
  basis : model.basis = .ofMatrix Φ
  reference : model.reference = .ofCoords r

theorem exists_coordinates (model : Galerkin σ ℝ) :
    ∃ (Φ : Matrix (Fin model.full.velocityBuffer.size) (Fin model.basis.cols) ℝ) (r : _),
      model.Coordinates Φ r := by
  obtain ⟨Φ, hΦ⟩ := Mat.exists_ofMatrix model.rows_basis rfl
  obtain ⟨r, hr⟩ := Vec.exists_ofCoords model.size_reference
  exact ⟨Φ, r, hΦ, hr⟩

namespace Coordinates

variable {model : Galerkin σ ℝ} {n k : Nat} {Φ : Matrix (Fin n) (Fin k) ℝ} {r : Fin n → ℝ}

theorem cols_eq (h : model.Coordinates Φ r) : model.basis.cols = k := by
  rw [h.basis, Mat.cols_ofMatrix]

theorem size_eq (h : model.Coordinates Φ r) : model.full.velocityBuffer.size = n := by
  rw [← model.rows_basis, h.basis, Mat.rows_ofMatrix]

theorem size_velocityBuffer (h : model.Coordinates Φ r) :
    model.system.velocityBuffer.size = k := by
  change (Vec.zeros model.basis.cols : Vec ℝ).size = k
  rw [h.cols_eq, Vec.zeros_eq_ofCoords, Vec.size_ofCoords]

theorem shape_jacobianBuffer (h : model.Coordinates Φ r) :
    model.system.jacobianBuffer.rows = k ∧ model.system.jacobianBuffer.cols = k := by
  change (Mat.zeros model.basis.cols model.basis.cols : Mat ℝ).rows = k ∧
    (Mat.zeros model.basis.cols model.basis.cols : Mat ℝ).cols = k
  rw [h.cols_eq, Mat.zeros_eq_ofMatrix, Mat.rows_ofMatrix, Mat.cols_ofMatrix]
  exact ⟨rfl, rfl⟩

theorem orthonormal_iff (h : model.Coordinates Φ r) : model.Orthonormal ↔ Φᵀ * Φ = 1 := by
  rw [Orthonormal, h.basis, Mat.mulTranspose_ofMatrix, Mat.cols_ofMatrix, Mat.zeros_eq_ofMatrix,
    Mat.addIdentity_ofMatrix, zero_add, Except.ok.injEq, Mat.ofMatrix_injective.eq_iff]

theorem decode_ofCoords (h : model.Coordinates Φ r) (z : Fin k → ℝ) :
    model.decode (.ofCoords z) = .ok (.ofCoords (Φ *ᵥ z)) := by
  rw [decode, h.basis, Mat.apply_ofMatrix]

theorem reconstruct_ofCoords (h : model.Coordinates Φ r) (z : Fin k → ℝ) :
    model.reconstruct (.ofCoords z) = .ok (.ofCoords (Φ *ᵥ z + r)) := by
  rw [reconstruct, h.decode_ofCoords, h.reference]
  exact Vec.add_ofCoords _ r

theorem applyTranspose_ofCoords (h : model.Coordinates Φ r) (y : Fin n → ℝ) :
    model.basis.applyTranspose (.ofCoords y) = .ok (.ofCoords (Φᵀ *ᵥ y)) := by
  rw [h.basis, Mat.applyTranspose_ofMatrix]

theorem decode_of_size_ne (h : model.Coordinates Φ r) {z : Vec ℝ} (hz : z.size ≠ k) :
    model.decode z = .error .sizeMismatch :=
  if_neg (by rw [h.cols_eq]; exact hz.symm)

theorem reconstruct_of_size_ne (h : model.Coordinates Φ r) {z : Vec ℝ} (hz : z.size ≠ k) :
    model.reconstruct z = .error .sizeMismatch := by
  rw [reconstruct, h.decode_of_size_ne hz]
  rfl

theorem project_ofCoords (h : model.Coordinates Φ r) (y : Fin n → ℝ) :
    model.project (.ofCoords y) = .ok (.ofCoords (Φᵀ *ᵥ (y - r))) := by
  rw [project, h.reference, Vec.sub_ofCoords]
  exact h.applyTranspose_ofCoords (y - r)

theorem between_ofMatrix (h : model.Coordinates Φ r) (J : Matrix (Fin n) (Fin n) ℝ) :
    (do model.basis.mulTranspose (← Mat.mul (.ofMatrix J) model.basis)) =
      .ok (.ofMatrix (Φᵀ * (J * Φ))) := by
  rw [h.basis, Mat.between_ofMatrix]

theorem exists_reconstructs (h : model.Coordinates Φ r) {stencil : Stencil ℝ}
    (hsize : ∀ state ∈ stencil.slots, state.size = k) :
    ∃ (history : Stencil ℝ) (zs : List (Fin k → ℝ)), model.Reconstructs stencil history ∧
      stencil.slots = zs.map .ofCoords ∧
      history.slots = (zs.map fun z => Φ *ᵥ z + r).map .ofCoords := by
  obtain ⟨zs, hzs⟩ := Vec.exists_map_ofCoords hsize
  cases zs with
  | nil => cases hzs
  | cons newest older =>
      have hslots : (⟨.ofCoords (Φ *ᵥ newest + r),
          (older.map fun z => Φ *ᵥ z + r).map .ofCoords⟩ : Stencil ℝ).slots =
            ((newest :: older).map fun z => Φ *ᵥ z + r).map .ofCoords := rfl
      refine ⟨_, newest :: older, ?_, hzs, hslots⟩
      rw [Reconstructs, hzs, hslots, List.map_map, List.forall₂_map_left_iff,
        List.forall₂_map_right_iff, List.forall₂_same]
      intro z _
      exact h.reconstruct_ofCoords z

end Coordinates

/-! ## Evaluations of the reduced model -/

section Evaluations

variable {model : Galerkin σ ℝ} {reduced full : Vec ℝ} (time : ℝ) {env : σ}

theorem velocity_of_undone (hfull : model.reconstruct reduced = .ok full) (buffer : Vec ℝ)
    (hundone : (model.full.velocity full time model.full.velocityBuffer env).1.ending ≠ .done) :
    model.system.velocity reduced time buffer env =
      (⟨buffer, (model.full.velocity full time model.full.velocityBuffer env).1.ending⟩,
        (model.full.velocity full time model.full.velocityBuffer env).2) := by
  simp only [system, hfull, bind_apply]
  rfl

theorem velocity_of_done (hfull : model.reconstruct reduced = .ok full) {buffer f v : Vec ℝ}
    (hf : (model.full.velocity full time model.full.velocityBuffer env).1 = .done f)
    (hv : model.basis.applyTranspose f = .ok v) (hbuffer : buffer.size = v.size) :
    model.system.velocity reduced time buffer env =
      (.done v, (model.full.velocity full time model.full.velocityBuffer env).2) := by
  have hstore : (do Vec.store buffer (← model.basis.applyTranspose f)) = .ok v := by
    rw [hv]
    exact if_pos hbuffer
  simp only [system, hfull, bind_apply, hf, Outcome.done, hstore]
  rfl

theorem jacobian_of_undone (hfull : model.reconstruct reduced = .ok full) (buffer : Mat ℝ)
    (hundone : (model.full.jacobian full time model.full.jacobianBuffer env).1.ending ≠ .done) :
    model.system.jacobian reduced time buffer env =
      (⟨buffer, (model.full.jacobian full time model.full.jacobianBuffer env).1.ending⟩,
        (model.full.jacobian full time model.full.jacobianBuffer env).2) := by
  simp only [system, hfull, bind_apply]
  rfl

theorem jacobian_of_done (hfull : model.reconstruct reduced = .ok full) {buffer J j : Mat ℝ}
    (hJ : (model.full.jacobian full time model.full.jacobianBuffer env).1 = .done J)
    (hj : (do model.basis.mulTranspose (← J.mul model.basis)) = .ok j)
    (hbuffer : buffer.rows = j.rows ∧ buffer.cols = j.cols) :
    model.system.jacobian reduced time buffer env =
      (.done j, (model.full.jacobian full time model.full.jacobianBuffer env).2) := by
  have hstore : (do Mat.store buffer (← model.basis.mulTranspose (← J.mul model.basis))) =
      .ok j := by
    rw [← bind_assoc, hj]
    exact if_pos hbuffer
  simp only [system, hfull, bind_apply, hJ, Outcome.done, hstore]
  rfl

end Evaluations

/-! ## The equation of a step -/

/-- What an evaluation of the equation of a step comes to in the reduced model and
in the full one, given the evaluation of the full system that both rest on: they end
as it does, with a failure surfaced as one of the residual, and if it is completed,
their values are related. -/
structure Commutes {β : Type} (point : StepPoint ℝ) (related : β → β → Prop)
    (behind reduced full : Outcome ℝ β × σ) : Prop where
  env_reduced : reduced.2 = behind.2
  env_full : full.2 = behind.2
  ending_reduced : reduced.1.ending =
    (behind.1.mapFailure (·.asResidualFailure point.step point.time)).ending
  ending_full : full.1.ending =
    (behind.1.mapFailure (·.asResidualFailure point.step point.time)).ending
  value (h : behind.1.ending = .done) : related full.1.value reduced.1.value

/-- What a completed evaluation of the full equation says of the reduced one. -/
theorem Commutes.of_full_done {β : Type} {point : StepPoint ℝ} {related : β → β → Prop}
    {behind reduced full : Outcome ℝ β × σ} (h : Commutes point related behind reduced full)
    {whole : β} (hfull : full.1 = .done whole) :
    ∃ value, reduced.1 = .done value ∧ related whole value := by
  have hending : full.1.ending = .done := by rw [hfull]; rfl
  have hbehind : behind.1.ending = .done := by
    rwa [h.ending_full, Outcome.ending_mapFailure_eq_done] at hending
  have hreduced : reduced.1.ending = .done := by
    rw [h.ending_reduced, Outcome.ending_mapFailure_eq_done, hbehind]
  have hvalue := h.value hbehind
  rw [hfull] at hvalue
  exact ⟨_, Outcome.eq_done hreduced, hvalue⟩

section Coordinates

variable {n k : Nat} {Φ : Matrix (Fin n) (Fin k) ℝ} {table : BdfTable ℝ}

theorem ofSize?_of_slots {stencil : Stencil ℝ} {xs : List (Fin n → ℝ)}
    (hslots : stencil.slots = xs.map .ofCoords) (htable : BdfTable.ofSize? xs.length = some table) :
    BdfTable.ofSize? stencil.size = some table := by
  rw [← Stencil.length_slots, hslots, List.length_map, htable]

theorem transpose_mulVec_residual (horthonormal : Φᵀ * Φ = 1) (r : Fin n → ℝ)
    {zs : List (Fin k → ℝ)} (htable : BdfTable.ofSize? zs.length = some table) (z : Fin k → ℝ)
    (c : ℝ) (f : Fin n → ℝ) :
    Φᵀ *ᵥ (Φ *ᵥ z + r - mix table.alpha (zs.map fun z => Φ *ᵥ z + r) - c • f) =
      z - mix table.alpha zs - c • (Φᵀ *ᵥ f) := by
  have hlinear : IsLinearMap ℝ (Φ *ᵥ ·) := ⟨mulVec_add Φ, fun c v => mulVec_smul Φ c v⟩
  have hmix : mix table.alpha (zs.map fun z => Φ *ᵥ z + r) = Φ *ᵥ mix table.alpha zs + r := by
    rw [mix_affine hlinear r (BdfTable.length_alpha htable).le, BdfTable.sum_alpha htable, one_smul]
  have hdrop : Φ *ᵥ z + r - (Φ *ᵥ mix table.alpha zs + r) = Φ *ᵥ (z - mix table.alpha zs) := by
    rw [add_sub_add_right_eq_sub, mulVec_sub]
  rw [hmix, hdrop, mulVec_sub, mulVec_mulVec, horthonormal, one_mulVec, mulVec_smul]

theorem transpose_mul_jacobian (horthonormal : Φᵀ * Φ = 1) (c : ℝ)
    (J : Matrix (Fin n) (Fin n) ℝ) :
    Φᵀ * ((1 - c • J) * Φ) = 1 - c • (Φᵀ * (J * Φ)) := by
  rw [Matrix.sub_mul, Matrix.one_mul, Matrix.mul_sub, horthonormal, Matrix.smul_mul,
    Matrix.mul_smul]

end Coordinates

section Steps

variable {model : Galerkin σ ℝ} {n k : Nat} {Φ : Matrix (Fin n) (Fin k) ℝ} {r : Fin n → ℝ}
  (point : StepPoint ℝ) {stencil history : Stencil ℝ} {zs : List (Fin k → ℝ)}
  {table : BdfTable ℝ}

theorem Coordinates.residual_commutes (h : model.Coordinates Φ r) (horthonormal : Φᵀ * Φ = 1)
    (hsized : model.full.Sized) (hreduced : stencil.slots = zs.map .ofCoords)
    (hfull : history.slots = (zs.map fun z => Φ *ᵥ z + r).map .ofCoords)
    (htable : BdfTable.ofSize? zs.length = some table) (z : Fin k → ℝ) {buffer : Vec ℝ}
    (hbuffer : buffer.size = k) (env : σ) :
    let full : Vec ℝ := .ofCoords (Φ *ᵥ z + r)
    Commutes point (fun R r => model.basis.applyTranspose R = .ok r)
      (model.full.velocity full point.time model.full.velocityBuffer env)
      ((StepEquation.bdf model.system).residual point stencil (.ofCoords z) buffer env)
      ((StepEquation.bdf model.full).residual point history full model.full.velocityBuffer
        env) := by
  intro full
  have hstencil := ofSize?_of_slots hreduced htable
  have hhistory := ofSize?_of_slots hfull ((congrArg _ (List.length_map _)).trans htable)
  have hreconstruct := h.reconstruct_ofCoords z
  by_cases hdone :
      (model.full.velocity full point.time model.full.velocityBuffer env).1.ending = .done
  · have hsize := hsized.velocity _ _ _ _ hdone
    obtain ⟨f, hf⟩ := Vec.exists_ofCoords (hsize.trans h.size_eq)
    have hevaluated := Outcome.eq_done hdone
    rw [hf] at hevaluated
    have hfits : buffer.size = (Vec.ofCoords (Φᵀ *ᵥ f)).size := by simpa using hbuffer
    have hvelocity := velocity_of_done point.time hreconstruct hevaluated
      (h.applyTranspose_ofCoords f) hfits
    rw [StepEquation.residual_of_velocity hhistory hevaluated,
      StepEquation.residual_of_velocity hstencil (congrArg Prod.fst hvelocity), hreduced, hfull,
      BdfTable.residual_ofCoords, BdfTable.residual_ofCoords, hvelocity]
    refine ⟨rfl, rfl, by rw [hevaluated]; rfl, by rw [hevaluated]; rfl, fun _ => ?_⟩
    change model.basis.applyTranspose (.ofCoords _) = .ok (.ofCoords _)
    rw [h.applyTranspose_ofCoords, transpose_mulVec_residual horthonormal r htable]
  · have hvelocity := velocity_of_undone point.time hreconstruct buffer hdone
    rw [StepEquation.residual_of_undone hhistory hdone,
      StepEquation.residual_of_undone hstencil (by rw [hvelocity]; exact hdone), hvelocity]
    exact ⟨rfl, rfl, Outcome.ending_mapFailure_mk _ _ _, rfl, fun h => absurd h hdone⟩

theorem Coordinates.jacobian_commutes (h : model.Coordinates Φ r) (horthonormal : Φᵀ * Φ = 1)
    (hsized : model.full.Sized) (hreduced : stencil.slots = zs.map .ofCoords)
    (hfull : history.slots = (zs.map fun z => Φ *ᵥ z + r).map .ofCoords)
    (htable : BdfTable.ofSize? zs.length = some table) (z : Fin k → ℝ) {buffer : Mat ℝ}
    (hbuffer : buffer.rows = k ∧ buffer.cols = k) (env : σ) :
    let full : Vec ℝ := .ofCoords (Φ *ᵥ z + r)
    Commutes point
      (fun J j => (do model.basis.mulTranspose (← J.mul model.basis)) = .ok j)
      (model.full.jacobian full point.time model.full.jacobianBuffer env)
      ((StepEquation.bdf model.system).jacobian point stencil (.ofCoords z) buffer env)
      ((StepEquation.bdf model.full).jacobian point history full model.full.jacobianBuffer
        env) := by
  intro full
  have hstencil := ofSize?_of_slots hreduced htable
  have hhistory := ofSize?_of_slots hfull ((congrArg _ (List.length_map _)).trans htable)
  have hreconstruct := h.reconstruct_ofCoords z
  by_cases hdone :
      (model.full.jacobian full point.time model.full.jacobianBuffer env).1.ending = .done
  · obtain ⟨hrows, hcols⟩ := hsized.jacobian _ _ _ _ hdone
    obtain ⟨J, hJ⟩ := Mat.exists_ofMatrix (hrows.trans h.size_eq) (hcols.trans h.size_eq)
    have hevaluated := Outcome.eq_done hdone
    rw [hJ] at hevaluated
    have hfits : buffer.rows = (Mat.ofMatrix (Φᵀ * (J * Φ))).rows ∧
        buffer.cols = (Mat.ofMatrix (Φᵀ * (J * Φ))).cols := by simpa using hbuffer
    have hjacobian := jacobian_of_done point.time hreconstruct hevaluated
      (h.between_ofMatrix J) hfits
    rw [StepEquation.jacobian_of_evaluated hhistory hevaluated,
      StepEquation.jacobian_of_evaluated hstencil (congrArg Prod.fst hjacobian),
      BdfTable.jacobian_ofMatrix, BdfTable.jacobian_ofMatrix, hjacobian]
    refine ⟨rfl, rfl, by rw [hevaluated]; rfl, by rw [hevaluated]; rfl, fun _ => ?_⟩
    change (do model.basis.mulTranspose (← Mat.mul (.ofMatrix _) model.basis)) =
      .ok (.ofMatrix _)
    rw [h.between_ofMatrix, transpose_mul_jacobian horthonormal]
  · have hjacobian := jacobian_of_undone point.time hreconstruct buffer hdone
    rw [StepEquation.jacobian_of_undone hhistory hdone,
      StepEquation.jacobian_of_undone hstencil (by rw [hjacobian]; exact hdone), hjacobian]
    exact ⟨rfl, rfl, Outcome.ending_mapFailure_mk _ _ _, rfl, fun h => absurd h hdone⟩

end Steps

/-- For an orthonormal basis, reducing a system and posing the equation of a step
commute.  Wherever the reduced model is asked for the residual or the Jacobian of a
step, it ends like the full system asked at the reconstructed trial state over the
reconstructed history; where they are completed, the reduced residual is the full one
tested against the basis, and the reduced Jacobian the full one between the basis and
its transpose.  So a root of the full equation that can be reconstructed is a root of
the reduced one. -/
theorem residual_and_jacobian_commute (model : Galerkin σ ℝ) (horthonormal : model.Orthonormal)
    (hsized : model.full.Sized) (point : StepPoint ℝ) {stencil : Stencil ℝ}
    (hsize : stencil.size ≤ 3) (hstencil : ∀ state ∈ stencil.slots, state.size = model.basis.cols)
    {trial : Vec ℝ} (htrial : trial.size = model.basis.cols) {buffer : Vec ℝ}
    (hbuffer : buffer.size = model.basis.cols) {square : Mat ℝ}
    (hsquare : square.rows = model.basis.cols ∧ square.cols = model.basis.cols) (env : σ) :
    let reduced := StepEquation.bdf model.system
    let whole := StepEquation.bdf model.full
    ∃ (full : Vec ℝ) (history : Stencil ℝ), model.reconstruct trial = .ok full ∧
      model.Reconstructs stencil history ∧
      Commutes point (fun R r => model.basis.applyTranspose R = .ok r)
        (model.full.velocity full point.time model.full.velocityBuffer env)
        (reduced.residual point stencil trial buffer env)
        (whole.residual point history full model.full.velocityBuffer env) ∧
      Commutes point (fun J j => (do model.basis.mulTranspose (← J.mul model.basis)) = .ok j)
        (model.full.jacobian full point.time model.full.jacobianBuffer env)
        (reduced.jacobian point stencil trial square env)
        (whole.jacobian point history full model.full.jacobianBuffer env) ∧
      ((whole.residual point history full model.full.velocityBuffer env).1 =
          .done (Vec.zeros model.full.velocityBuffer.size) →
        (reduced.residual point stencil trial buffer env).1 =
          .done (Vec.zeros model.basis.cols)) := by
  intro reduced whole
  obtain ⟨Φ, r, h⟩ := model.exists_coordinates
  have hΦ : Φᵀ * Φ = 1 := h.orthonormal_iff.1 horthonormal
  obtain ⟨z, rfl⟩ := Vec.exists_ofCoords htrial
  obtain ⟨history, zs, hreconstructs, hreduced, hfull⟩ := h.exists_reconstructs hstencil
  have hlength : zs.length = stencil.size := by
    rw [← Stencil.length_slots, hreduced, List.length_map]
  have hpos : 0 < zs.length := hlength ▸ Nat.succ_pos _
  obtain ⟨table, htable⟩ : ∃ table : BdfTable ℝ, BdfTable.ofSize? zs.length = some table :=
    BdfTable.exists_ofSize? hpos (hlength ▸ hsize)
  have hresidual := h.residual_commutes point hΦ hsized hreduced hfull htable z hbuffer env
  have hjacobian := h.jacobian_commutes point hΦ hsized hreduced hfull htable z hsquare env
  refine ⟨_, history, h.reconstruct_ofCoords z, hreconstructs, hresidual, hjacobian,
    fun hroot => ?_⟩
  obtain ⟨value, hvalue, htested⟩ := hresidual.of_full_done hroot
  rw [Vec.zeros_eq_ofCoords, h.applyTranspose_ofCoords, mulVec_zero, ← Vec.zeros_eq_ofCoords,
    Except.ok.injEq] at htested
  rw [hvalue, htested]

/-- A model of one coordinate: the first entry of the state decays, and the second
stays at its reference. -/
noncomputable def decaying : Galerkin Unit ℝ where
  full :=
    { velocityBuffer := Vec.zeros 2
      jacobianBuffer := Mat.zeros 2 2
      velocity := fun state _ _ => pure (.done (.ofCoords ![-state.getD 0 0, 0]))
      jacobian := fun _ _ _ => pure (.done (.ofMatrix !![-1, 0; 0, 0])) }
  basis := .ofMatrix !![1; 0]
  reference := .ofCoords ![0, 1]
  rows_basis := by simp [Vec.zeros_eq_ofCoords]
  size_reference := by simp [Vec.zeros_eq_ofCoords]

theorem decaying_coordinates : decaying.Coordinates !![1; 0] ![0, 1] :=
  ⟨rfl, rfl⟩

theorem decaying_orthonormal : decaying.Orthonormal := by
  rw [decaying_coordinates.orthonormal_iff]
  ext i j
  fin_cases i
  fin_cases j
  simp [Matrix.mul_apply]

theorem decaying_sized : decaying.full.Sized where
  velocity state _ _ _ _ := by
    change (Vec.ofCoords ![-state.getD 0 0, 0]).size = (Vec.zeros 2 : Vec ℝ).size
    rw [Vec.zeros_eq_ofCoords, Vec.size_ofCoords, Vec.size_ofCoords]
  jacobian _ _ _ _ _ := by
    change 2 = (Vec.zeros 2 : Vec ℝ).size ∧
      (Mat.ofMatrix !![(-1 : ℝ), 0; 0, 0]).cols = (Vec.zeros 2 : Vec ℝ).size
    rw [Vec.zeros_eq_ofCoords, Vec.size_ofCoords, Mat.cols_ofMatrix]
    exact ⟨rfl, rfl⟩

theorem residual_and_jacobian_commute_decaying :
    let point : StepPoint ℝ := ⟨2, 1, 1 / 2⟩
    let stencil : Stencil ℝ := ⟨.ofCoords ![2], [.ofCoords ![3]]⟩
    ∃ (full : Vec ℝ) (history : Stencil ℝ), decaying.reconstruct (.ofCoords ![1]) = .ok full ∧
      decaying.Reconstructs stencil history ∧
      Commutes point (fun R r => decaying.basis.applyTranspose R = .ok r)
        (decaying.full.velocity full 1 (Vec.zeros 2) ())
        ((StepEquation.bdf decaying.system).residual point stencil (.ofCoords ![1])
          (Vec.zeros 1) ())
        ((StepEquation.bdf decaying.full).residual point history full (Vec.zeros 2) ()) := by
  intro point stencil
  have hcols : decaying.basis.cols = 1 := decaying_coordinates.cols_eq
  have hsize (v : Fin 1 → ℝ) : (Vec.ofCoords v).size = decaying.basis.cols := by
    rw [hcols, Vec.size_ofCoords]
  have hstencil : ∀ state ∈ stencil.slots, state.size = decaying.basis.cols := by
    simp [stencil, Stencil.slots, hcols]
  have hbuffer : (Vec.zeros 1 : Vec ℝ).size = decaying.basis.cols := by
    rw [hcols, Vec.zeros_eq_ofCoords, Vec.size_ofCoords]
  have hsquare : (Mat.zeros 1 1 : Mat ℝ).rows = decaying.basis.cols ∧
      (Mat.zeros 1 1 : Mat ℝ).cols = decaying.basis.cols := by
    rw [hcols]
    exact ⟨rfl, rfl⟩
  obtain ⟨full, history, hfull, hhistory, hresidual, -⟩ :=
    residual_and_jacobian_commute decaying decaying_orthonormal decaying_sized point (by decide)
      hstencil (hsize _) hbuffer hsquare ()
  exact ⟨full, history, hfull, hhistory, hresidual⟩

end Galerkin

end TimeStepping
