import TimeStepping.Proofs.Linearization

/-!
# Reductions of reduced models

A reduced model is a system and can be reduced again.  The result is the model over the
product of the bases, around the reference of the first reduction moved by the second
one's, down to every failure and every violated precondition:
`Galerkin.reductions_nest`.
-/

namespace TimeStepping

open Matrix

variable {σ α β γ δ : Type}

/-! ## Evaluations through a reduction -/

/-- Evaluate at a state, if there is one, and keep what a checked function makes of the
value.  Otherwise the buffer stays as it is. -/
def evaluateThrough (state : Except Fault (Vec α)) (evaluate : Vec α → StateM σ (Outcome α β))
    (check : β → Except Fault γ) (buffer : γ) : StateM σ (Outcome α γ) :=
  match state with
  | .error cause => pure ⟨buffer, .fault cause⟩
  | .ok full => do
      let outcome ← evaluate full
      match outcome.ending with
      | .done => pure (.ofChecked buffer (check outcome.value))
      | ending => pure ⟨buffer, ending⟩

/-- An evaluation through two reductions, one after the other, is one through both.  What
the inner one leaves in its buffer is of no account. -/
theorem evaluateThrough_nested (state : Except Fault (Vec α))
    (reconstruct : Vec α → Except Fault (Vec α)) (evaluate : Vec α → StateM σ (Outcome α β))
    (check : β → Except Fault γ) (check' : γ → Except Fault δ) (buffer : γ) (buffer' : δ) :
    evaluateThrough state
        (fun half => evaluateThrough (reconstruct half) evaluate check buffer) check' buffer' =
      evaluateThrough (state >>= reconstruct) evaluate (fun value => check value >>= check')
        buffer' := by
  cases state with
  | error cause => rfl
  | ok half =>
      change evaluateThrough (.ok half) _ check' buffer' =
        evaluateThrough (reconstruct half) evaluate _ buffer'
      funext env
      simp only [evaluateThrough]
      cases reconstruct half with
      | error cause => rfl
      | ok full =>
          simp only [bind_apply]
          rcases evaluate full env with ⟨⟨value, ending⟩, after⟩
          cases ending with
          | failed cause => rfl
          | fault cause => rfl
          | done =>
              dsimp only
              cases check value with
              | error cause => rfl
              | ok tested => rfl

/-! ## Bases, one after the other -/

namespace Mat

variable {n k l : Nat} (Φ : Matrix (Fin n) (Fin k) ℝ) (Ψ : Matrix (Fin k) (Fin l) ℝ)

theorem applyTranspose_nested {buffer : Vec ℝ} (hbuffer : buffer.size = k) (f : Vec ℝ) :
    (do
      let g ← Vec.store buffer (← (ofMatrix Φ).applyTranspose f)
      (ofMatrix Ψ).applyTranspose g) = (ofMatrix (Φ * Ψ)).applyTranspose f := by
  by_cases hsize : f.size = n
  · obtain ⟨v, rfl⟩ := Vec.exists_ofCoords hsize
    have hstore : Vec.store buffer (.ofCoords (Φᵀ *ᵥ v)) = .ok (.ofCoords (Φᵀ *ᵥ v)) :=
      if_pos (by rw [hbuffer, Vec.size_ofCoords])
    rw [applyTranspose_ofMatrix Φ, applyTranspose_ofMatrix (Φ * Ψ), transpose_mul,
      ← mulVec_mulVec, ← applyTranspose_ofMatrix Ψ]
    change Vec.store buffer (.ofCoords (Φᵀ *ᵥ v)) >>= _ = _
    rw [hstore]
    rfl
  · have hrefused {m : Nat} (A : Matrix (Fin n) (Fin m) ℝ) :
        (ofMatrix A).applyTranspose f = .error .sizeMismatch := if_neg (Ne.symm hsize)
    rw [hrefused, hrefused]
    rfl

/-- A matrix has the shape to stand between the transpose of a basis and the basis, or it
is refused. -/
theorem between_cases (J : Mat ℝ) (n : Nat) :
    (∃ A : Matrix (Fin n) (Fin n) ℝ, J = ofMatrix A) ∨
      ∀ {m : Nat} (A : Matrix (Fin n) (Fin m) ℝ),
        (do (ofMatrix A).mulTranspose (← J.mul (ofMatrix A))) = .error .sizeMismatch := by
  by_cases hcols : J.cols = n
  · by_cases hrows : J.rows = n
    · exact .inl (exists_ofMatrix hrows hcols)
    · refine .inr fun A => ?_
      rw [mul, if_pos (by rw [hcols, rows_ofMatrix])]
      exact if_neg (Ne.symm hrows)
  · refine .inr fun A => ?_
    rw [mul, if_neg (by rwa [rows_ofMatrix])]
    rfl

theorem between_nested {buffer : Mat ℝ} (hbuffer : buffer.rows = k ∧ buffer.cols = k)
    (J : Mat ℝ) :
    (do
      let j ← Mat.store buffer (← (ofMatrix Φ).mulTranspose (← J.mul (ofMatrix Φ)))
      (ofMatrix Ψ).mulTranspose (← j.mul (ofMatrix Ψ))) =
        (do (ofMatrix (Φ * Ψ)).mulTranspose (← J.mul (ofMatrix (Φ * Ψ)))) := by
  obtain ⟨A, rfl⟩ | hrefused := between_cases J n
  · have hstore : Mat.store buffer (.ofMatrix (Φᵀ * (A * Φ))) = .ok (.ofMatrix (Φᵀ * (A * Φ))) :=
      if_pos (by rwa [rows_ofMatrix, cols_ofMatrix])
    have hproduct : (Φ * Ψ)ᵀ * (A * (Φ * Ψ)) = Ψᵀ * (Φᵀ * (A * Φ) * Ψ) := by
      simp only [transpose_mul, Matrix.mul_assoc]
    have hinner : (do (ofMatrix Φ).mulTranspose (← Mat.mul (.ofMatrix A) (ofMatrix Φ))) =
        .ok (.ofMatrix (Φᵀ * (A * Φ))) := between_ofMatrix A Φ
    have houter :
        (do (ofMatrix (Φ * Ψ)).mulTranspose (← Mat.mul (.ofMatrix A) (ofMatrix (Φ * Ψ)))) =
          .ok (.ofMatrix (Ψᵀ * (Φᵀ * (A * Φ) * Ψ))) := hproduct ▸ between_ofMatrix A (Φ * Ψ)
    rw [houter, ← between_ofMatrix _ Ψ, ← bind_assoc, hinner]
    change (Mat.store buffer (.ofMatrix (Φᵀ * (A * Φ))) >>= _) = _
    rw [hstore]
    rfl
  · rw [hrefused, ← bind_assoc, hrefused]
    rfl

end Mat

namespace Galerkin

section Evaluations

variable [Scalar α] (model : Galerkin σ α) (reduced : Vec α) (time : α)

theorem velocity_through (buffer : Vec α) :
    model.system.velocity reduced time buffer =
      evaluateThrough (model.reconstruct reduced)
        (fun full => model.full.velocity full time model.full.velocityBuffer)
        (fun f => do Vec.store buffer (← model.basis.applyTranspose f)) buffer :=
  rfl

theorem jacobian_through (buffer : Mat α) :
    model.system.jacobian reduced time buffer =
      evaluateThrough (model.reconstruct reduced)
        (fun full => model.full.jacobian full time model.full.jacobianBuffer)
        (fun J => do Mat.store buffer (← model.basis.mulTranspose (← J.mul model.basis)))
        buffer :=
  rfl

end Evaluations

namespace Coordinates

variable {n k l : Nat} {Φ : Matrix (Fin n) (Fin k) ℝ} {r : Fin n → ℝ}

/-! ## Two models, one over the other -/

section Nested

variable {Ψ : Matrix (Fin k) (Fin l) ℝ} {s : Fin k → ℝ} {inner outer single : Galerkin σ ℝ}
  (hinner : inner.Coordinates Φ r) (houter : outer.Coordinates Ψ s)
  (hsingle : single.Coordinates (Φ * Ψ) (r + Φ *ᵥ s))

include hinner houter hsingle

theorem reconstruct_nested (z : Vec ℝ) :
    outer.reconstruct z >>= inner.reconstruct = single.reconstruct z := by
  by_cases hz : z.size = l
  · obtain ⟨w, rfl⟩ := Vec.exists_ofCoords hz
    have hmoved : Φ *ᵥ (Ψ *ᵥ w + s) + r = (Φ * Ψ) *ᵥ w + (r + Φ *ᵥ s) := by
      rw [mulVec_add, mulVec_mulVec]
      abel
    rw [houter.reconstruct_ofCoords, hsingle.reconstruct_ofCoords, ← hmoved,
      ← hinner.reconstruct_ofCoords]
    rfl
  · rw [houter.reconstruct_of_size_ne hz, hsingle.reconstruct_of_size_ne hz]
    rfl

/-- The reference of the outer model is removed once in the whole space and once behind
the transposed inner basis, which is the same if that undoes the basis. -/
theorem project_nested (horthonormal : Φᵀ * Φ = 1) (y : Fin n → ℝ) :
    ∃ half z, inner.project (.ofCoords y) = .ok half ∧ outer.project half = .ok z ∧
      single.project (.ofCoords y) = .ok z := by
  refine ⟨_, _, hinner.project_ofCoords y, houter.project_ofCoords _, ?_⟩
  have hremoved : (Φ * Ψ)ᵀ *ᵥ (y - (r + Φ *ᵥ s)) = Ψᵀ *ᵥ (Φᵀ *ᵥ (y - r) - s) := by
    rw [← sub_sub, transpose_mul, ← mulVec_mulVec, mulVec_sub Φᵀ (y - r), mulVec_mulVec s Φᵀ,
      horthonormal, one_mulVec]
  rw [hsingle.project_ofCoords, hremoved]

theorem velocity_nested (hover : outer.full = inner.system) (hsame : single.full = inner.full) :
    outer.system.velocity = single.system.velocity := by
  funext z time buffer
  rw [velocity_through, velocity_through, hover, hsame]
  simp only [velocity_through inner]
  rw [evaluateThrough_nested, hinner.reconstruct_nested houter hsingle]
  congr 1
  funext f
  have hchecked := congrArg (· >>= Vec.store buffer)
    (Mat.applyTranspose_nested Φ Ψ hinner.size_velocityBuffer f)
  simp only [bind_assoc] at hchecked
  simp only [hinner.basis, houter.basis, hsingle.basis, bind_assoc, hchecked]

theorem jacobian_nested (hover : outer.full = inner.system) (hsame : single.full = inner.full) :
    outer.system.jacobian = single.system.jacobian := by
  funext z time buffer
  rw [jacobian_through, jacobian_through, hover, hsame]
  simp only [jacobian_through inner]
  rw [evaluateThrough_nested, hinner.reconstruct_nested houter hsingle]
  congr 1
  funext J
  have hchecked := congrArg (· >>= Mat.store buffer)
    (Mat.between_nested Φ Ψ hinner.shape_jacobianBuffer J)
  simp only [bind_assoc] at hchecked
  simp only [hinner.basis, houter.basis, hsingle.basis, bind_assoc, hchecked]

theorem system_nested (hover : outer.full = inner.system) (hsame : single.full = inner.full) :
    outer.system = single.system := by
  have hcols : outer.basis.cols = single.basis.cols := houter.cols_eq.trans hsingle.cols_eq.symm
  refine (ContinuousSystem.mk.injEq ..).mpr ⟨?_, ?_,
    hinner.velocity_nested houter hsingle hover hsame,
    hinner.jacobian_nested houter hsingle hover hsame⟩
  · rw [hcols]
  · rw [hcols]

end Nested

end Coordinates

/-! ## Models by their bases -/

theorem eq_of_ofBasis {full : ContinuousSystem σ ℝ} {basis : Mat ℝ} {reference : Vec ℝ}
    {model : Galerkin σ ℝ} (h : ofBasis full basis reference = .ok model) :
    model.full = full ∧ model.basis = basis ∧ model.reference = reference := by
  unfold ofBasis at h
  split at h
  · cases h
    exact ⟨rfl, rfl, rfl⟩
  · cases h

theorem exists_nested_coordinates {inner outer : Galerkin σ ℝ} (hover : outer.full = inner.system) :
    ∃ (n k l : Nat) (Φ : Matrix (Fin n) (Fin k) ℝ) (Ψ : Matrix (Fin k) (Fin l) ℝ) (r : _) (s : _),
      inner.Coordinates Φ r ∧ outer.Coordinates Ψ s := by
  have hsize : outer.full.velocityBuffer.size = inner.basis.cols := by
    rw [hover]
    exact Array.size_replicate
  obtain ⟨Φ, r, hinner⟩ := inner.exists_coordinates
  obtain ⟨Ψ, hΨ⟩ := Mat.exists_ofMatrix (outer.rows_basis.trans hsize) rfl
  obtain ⟨s, hs⟩ := Vec.exists_ofCoords (outer.size_reference.trans hsize)
  exact ⟨_, _, _, Φ, Ψ, r, s, hinner, hΨ, hs⟩

/-- A reduced model can be reduced again, and what results is the reduction by the product
of the bases around the first reference moved by the second one's part.  The two are the
same system, so all evaluations agree; reconstructing at both levels is reconstructing at
once; a failure of the full system comes out as it is; and if the inner basis is
orthonormal, projecting at both levels is projecting at once. -/
theorem reductions_nest (system : ContinuousSystem σ ℝ) {basis basis' : Mat ℝ}
    {reference reference' : Vec ℝ} {inner outer : Galerkin σ ℝ}
    (hinner : ofBasis system basis reference = .ok inner)
    (houter : ofBasis inner.system basis' reference' = .ok outer) :
    ∃ product moved single, basis.mul basis' = .ok product ∧
      (do Vec.add reference (← basis.apply reference')) = .ok moved ∧
      ofBasis system product moved = .ok single ∧
      outer.system = single.system ∧
      (∀ z, z.size = basis'.cols → ∃ half full, outer.reconstruct z = .ok half ∧
        inner.reconstruct half = .ok full ∧ single.reconstruct z = .ok full) ∧
      (∀ z full time env after cause, single.reconstruct z = .ok full →
        (∀ buffer f, system.velocity full time system.velocityBuffer env =
            (⟨f, .failed cause⟩, after) →
          outer.system.velocity z time buffer env = (⟨buffer, .failed cause⟩, after)) ∧
        ∀ buffer J, system.jacobian full time system.jacobianBuffer env =
            (⟨J, .failed cause⟩, after) →
          outer.system.jacobian z time buffer env = (⟨buffer, .failed cause⟩, after)) ∧
      (inner.Orthonormal → ∀ y, y.size = basis.rows → ∃ half z, inner.project y = .ok half ∧
        outer.project half = .ok z ∧ single.project y = .ok z) := by
  obtain ⟨hfull, rfl, rfl⟩ := eq_of_ofBasis hinner
  obtain ⟨hover, rfl, rfl⟩ := eq_of_ofBasis houter
  -- in coordinates all the sizes are right, so that no product is refused
  obtain ⟨n, k, l, Φ, Ψ, r, s, h, h'⟩ := exists_nested_coordinates hover
  have hrows : (Mat.ofMatrix (Φ * Ψ)).rows = system.velocityBuffer.size := by
    rw [Mat.rows_ofMatrix, ← hfull, h.size_eq]
  have hreference : (Vec.ofCoords (r + Φ *ᵥ s)).size = system.velocityBuffer.size := by
    rw [Vec.size_ofCoords, ← hfull, h.size_eq]
  let single : Galerkin σ ℝ :=
    ⟨system, .ofMatrix (Φ * Ψ), .ofCoords (r + Φ *ᵥ s), hrows, hreference⟩
  have hsingle : single.Coordinates (Φ * Ψ) (r + Φ *ᵥ s) := ⟨rfl, rfl⟩
  have hsystem := h.system_nested h' hsingle hover hfull.symm
  refine ⟨_, _, single, ?_, ?_, dif_pos ⟨hrows, hreference⟩, hsystem, fun z hz => ?_,
    fun z full time env after cause hz => ⟨fun buffer f hfailed => ?_, fun buffer J hfailed => ?_⟩,
    fun horthonormal y hy => ?_⟩
  · rw [h.basis, h'.basis, Mat.mul_ofMatrix]
  · rw [h.basis, h.reference, h'.reference, Mat.apply_ofMatrix]
    exact Vec.add_ofCoords r (Φ *ᵥ s)
  · obtain ⟨w, rfl⟩ := Vec.exists_ofCoords (hz.trans h'.cols_eq)
    have hnested := h.reconstruct_nested h' hsingle (.ofCoords w)
    rw [h'.reconstruct_ofCoords] at hnested
    exact ⟨_, _, h'.reconstruct_ofCoords w, h.reconstruct_ofCoords _,
      hnested.symm.trans (h.reconstruct_ofCoords _)⟩
  · have hundone :
        (single.full.velocity full time single.full.velocityBuffer env).1.ending ≠ .done := by
      simp [single, hfailed]
    rw [hsystem, velocity_of_undone time hz buffer hundone]
    simp [single, hfailed]
  · have hundone :
        (single.full.jacobian full time single.full.jacobianBuffer env).1.ending ≠ .done := by
      simp [single, hfailed]
    rw [hsystem, jacobian_of_undone time hz buffer hundone]
    simp [single, hfailed]
  · rw [h.basis, Mat.rows_ofMatrix] at hy
    obtain ⟨v, rfl⟩ := Vec.exists_ofCoords hy
    exact h.project_nested h' hsingle (h.orthonormal_iff.1 horthonormal) v

/-- A turn of the plane, and then a line in it that does not go through the origin. -/
theorem reductions_nest_turned :
    ∃ inner outer : Galerkin Unit ℝ,
      ofBasis Coupled.system (.ofMatrix !![3 / 5, -4 / 5; 4 / 5, 3 / 5]) (.ofCoords ![1, 0]) =
        .ok inner ∧
      ofBasis inner.system (.ofMatrix !![1; 2]) (.ofCoords ![0, 5]) = .ok outer ∧
      inner.Orthonormal ∧
      (outer.system.velocity (.ofCoords ![1]) 0 (.ofCoords ![0]) ()).1 = .done (.ofCoords ![52]) ∧
      ∃ half, inner.project (.ofCoords ![1, 5]) = .ok half ∧
        outer.project half = .ok (.ofCoords ![0]) := by
  let Φ : Matrix (Fin 2) (Fin 2) ℝ := !![3 / 5, -4 / 5; 4 / 5, 3 / 5]
  let Ψ : Matrix (Fin 2) (Fin 1) ℝ := !![1; 2]
  have hsize : Coupled.system.velocityBuffer.size = 2 := Array.size_replicate
  let inner : Galerkin Unit ℝ := ⟨Coupled.system, .ofMatrix Φ, .ofCoords ![1, 0],
    (Mat.rows_ofMatrix Φ).trans hsize.symm, (Vec.size_ofCoords _).trans hsize.symm⟩
  have hinner : ofBasis Coupled.system (.ofMatrix Φ) (.ofCoords ![1, 0]) = .ok inner :=
    dif_pos ⟨inner.rows_basis, inner.size_reference⟩
  have hsize' : inner.system.velocityBuffer.size = 2 := Array.size_replicate
  let outer : Galerkin Unit ℝ := ⟨inner.system, .ofMatrix Ψ, .ofCoords ![0, 5],
    (Mat.rows_ofMatrix Ψ).trans hsize'.symm, (Vec.size_ofCoords _).trans hsize'.symm⟩
  have houter : ofBasis inner.system (.ofMatrix Ψ) (.ofCoords ![0, 5]) = .ok outer :=
    dif_pos ⟨outer.rows_basis, outer.size_reference⟩
  have hinside : inner.Coordinates Φ ![1, 0] := ⟨rfl, rfl⟩
  have houtside : outer.Coordinates Ψ ![0, 5] := ⟨rfl, rfl⟩
  have horthonormal : inner.Orthonormal := by
    rw [hinside.orthonormal_iff]
    ext i j
    fin_cases i <;> fin_cases j <;> norm_num [Φ, Matrix.mul_apply, Fin.sum_univ_two]
  obtain ⟨product, moved, single, hproduct, hmoved, hsingle, hsystem, -, -, -⟩ :=
    reductions_nest Coupled.system hinner houter
  have hcoordinates : single.Coordinates !![-1; 2] ![-3, 3] := by
    obtain ⟨-, rfl, rfl⟩ := eq_of_ofBasis hsingle
    constructor
    · rw [Mat.mul_ofMatrix, Except.ok.injEq] at hproduct
      rw [← hproduct]
      congr 1
      ext i j
      fin_cases i <;> fin_cases j <;> norm_num [Φ, Ψ, Matrix.mul_apply, Fin.sum_univ_two]
    · rw [Mat.apply_ofMatrix] at hmoved
      have hadded := (Vec.add_ofCoords ![1, 0] (Φ *ᵥ ![0, 5])).symm.trans hmoved
      rw [Except.ok.injEq] at hadded
      rw [← hadded]
      congr 1
      ext i
      fin_cases i <;> norm_num [Φ, mulVec, dotProduct, Fin.sum_univ_two]
  refine ⟨inner, outer, hinner, houter, horthonormal, ?_, _, hinside.project_ofCoords _, ?_⟩
  · have hfull : single.full = Coupled.system := (eq_of_ofBasis hsingle).1
    have hstate : !![-1; 2] *ᵥ ![1] + ![-3, 3] = (![-4, 5] : Fin 2 → ℝ) := by
      ext i
      fin_cases i <;> norm_num [mulVec, dotProduct]
    have hvelocity :
        (!![-1; 2] : Matrix (Fin 2) (Fin 1) ℝ)ᵀ *ᵥ Coupled.velocity ![-4, 5] = ![52] := by
      ext i
      fin_cases i
      norm_num [Coupled.velocity, mulVec, dotProduct, Fin.sum_univ_two]
    have hresidual : (single.full.frozenAt 0).HasResidual Set.univ Coupled.velocity :=
      hfull ▸ Coupled.hasResidual 0
    have heval := (hresidual.reduced hcoordinates).eval (x := ![1]) trivial
      (Vec.size_ofCoords ![0]) ()
    rw [hstate, hvelocity] at heval
    rw [hsystem]
    exact heval
  · rw [houtside.project_ofCoords]
    congr 2
    ext i
    fin_cases i
    norm_num [Φ, Ψ, mulVec, dotProduct, Fin.sum_univ_two]

end Galerkin

end TimeStepping
