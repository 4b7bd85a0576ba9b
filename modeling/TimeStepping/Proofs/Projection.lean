import Mathlib.Algebra.Order.Star.Real
import Mathlib.LinearAlgebra.Matrix.DotProduct
import TimeStepping.Models.Polynomial
import TimeStepping.Proofs.Reduction

/-!
# Projection onto the trial space

The trial space of a reduced model holds the states that it can reconstruct: the
reference plus a combination of the columns of the basis.  Projecting undoes
reconstructing exactly if the basis is orthonormal, `Galerkin.orthonormal_iff_recovers`,
and then reconstructing what was projected leads to the nearest point of the trial
space: `Galerkin.projects_orthogonally`.
-/

namespace TimeStepping

open Matrix

variable {σ α : Type}

/-! ## Orthonormal columns -/

section Columns

variable {n k : Nat} {Φ : Matrix (Fin n) (Fin k) ℝ} {v : Fin n → ℝ} {w : Fin k → ℝ}

theorem mulVec_dotProduct (Φ : Matrix (Fin n) (Fin k) ℝ) (w : Fin k → ℝ) (v : Fin n → ℝ) :
    Φ *ᵥ w ⬝ᵥ v = w ⬝ᵥ Φᵀ *ᵥ v := by
  rw [dotProduct_mulVec, vecMul_transpose]

/-- What is left of a vector without its part along the columns is orthogonal to all of
them. -/
theorem transpose_mulVec_gap (horthonormal : Φᵀ * Φ = 1) (v : Fin n → ℝ) :
    Φᵀ *ᵥ (v - Φ *ᵥ (Φᵀ *ᵥ v)) = 0 := by
  rw [mulVec_sub, mulVec_mulVec _ Φᵀ Φ, horthonormal, one_mulVec, sub_self]

/-- A state and any point of the trial space differ by the gap that the projection leaves
and a combination of the columns. -/
theorem sub_eq_gap_add (Φ : Matrix (Fin n) (Fin k) ℝ) (r y : Fin n → ℝ) (w : Fin k → ℝ) :
    y - (Φ *ᵥ w + r) = y - r - Φ *ᵥ (Φᵀ *ᵥ (y - r)) + Φ *ᵥ (Φᵀ *ᵥ (y - r) - w) := by
  rw [mulVec_sub Φ]
  abel

/-- The theorem of Pythagoras, with one side along the columns, where coordinates keep
their lengths. -/
theorem dotProduct_self_add_mulVec (horthonormal : Φᵀ * Φ = 1) (hv : Φᵀ *ᵥ v = 0)
    (w : Fin k → ℝ) : (v + Φ *ᵥ w) ⬝ᵥ (v + Φ *ᵥ w) = v ⬝ᵥ v + w ⬝ᵥ w := by
  have hcross : Φ *ᵥ w ⬝ᵥ v = 0 := by rw [mulVec_dotProduct, hv, dotProduct_zero]
  have hkept : Φ *ᵥ w ⬝ᵥ Φ *ᵥ w = w ⬝ᵥ w := by
    rw [mulVec_dotProduct, mulVec_mulVec, horthonormal, one_mulVec]
  rw [add_dotProduct, dotProduct_add, dotProduct_add, dotProduct_comm v (Φ *ᵥ w), hcross, hkept,
    add_zero, zero_add]

theorem norm_lt_norm_add_mulVec (horthonormal : Φᵀ * Φ = 1) (hv : Φᵀ *ᵥ v = 0) (hw : w ≠ 0) :
    Vec.norm (.ofCoords v) < Vec.norm (.ofCoords (v + Φ *ᵥ w)) := by
  have hnonneg : 0 ≤ v ⬝ᵥ v := dotProduct_self_star_nonneg v
  have hpos : 0 < w ⬝ᵥ w := dotProduct_self_star_pos_iff.2 hw
  rw [Vec.norm_ofCoords, Vec.norm_ofCoords, dotProduct_self_add_mulVec horthonormal hv]
  exact Real.sqrt_lt_sqrt hnonneg (lt_add_of_pos_right _ hpos)

end Columns

theorem Vec.sub_eq_ok_iff {n : Nat} {y : Vec ℝ} {d r : Fin n → ℝ} :
    Vec.sub y (.ofCoords r) = .ok (.ofCoords d) ↔ y = .ofCoords (d + r) := by
  by_cases hsize : y.size = n
  · obtain ⟨v, rfl⟩ := Vec.exists_ofCoords hsize
    rw [Vec.sub_ofCoords, Except.ok.injEq, Vec.ofCoords_injective.eq_iff,
      Vec.ofCoords_injective.eq_iff, sub_eq_iff_eq_add]
  · have hrefused : Vec.sub y (.ofCoords r) = .error .sizeMismatch :=
      if_neg (by rwa [Vec.size_ofCoords])
    rw [hrefused]
    constructor
    · intro h
      cases h
    · rintro rfl
      exact absurd (Vec.size_ofCoords _) hsize

namespace Galerkin

/-- The combinations of the columns of the basis. -/
def span (model : Galerkin σ ℝ) : Set (Vec ℝ) :=
  {d | ∃ z, model.decode z = .ok d}

/-- The states that can be reconstructed. -/
def trialSpace (model : Galerkin σ ℝ) : Set (Vec ℝ) :=
  {y | ∃ z, model.reconstruct z = .ok y}

/-- Replace a state by the one that its reduced coordinates stand for. -/
def approximate [Scalar α] (model : Galerkin σ α) (y : Vec α) : Except Fault (Vec α) := do
  model.reconstruct (← model.project y)

namespace Coordinates

variable {model : Galerkin σ ℝ} {n k : Nat} {Φ : Matrix (Fin n) (Fin k) ℝ} {r : Fin n → ℝ}

theorem mem_span_iff (h : model.Coordinates Φ r) {d : Vec ℝ} :
    d ∈ model.span ↔ ∃ w, d = .ofCoords (Φ *ᵥ w) := by
  constructor
  · rintro ⟨z, hz⟩
    by_cases hsize : z.size = k
    · obtain ⟨w, rfl⟩ := Vec.exists_ofCoords hsize
      rw [h.decode_ofCoords, Except.ok.injEq] at hz
      exact ⟨w, hz.symm⟩
    · rw [h.decode_of_size_ne hsize] at hz
      cases hz
  · rintro ⟨w, rfl⟩
    exact ⟨_, h.decode_ofCoords w⟩

theorem mem_trialSpace_iff (h : model.Coordinates Φ r) {y : Vec ℝ} :
    y ∈ model.trialSpace ↔ ∃ w, y = .ofCoords (Φ *ᵥ w + r) := by
  constructor
  · rintro ⟨z, hz⟩
    obtain ⟨d, hd, hadded⟩ := exists_of_bind_ok hz
    obtain ⟨w, rfl⟩ := h.mem_span_iff.1 ⟨z, hd⟩
    rw [h.reference, Vec.add_ofCoords, Except.ok.injEq] at hadded
    exact ⟨w, hadded.symm⟩
  · rintro ⟨w, rfl⟩
    exact ⟨_, h.reconstruct_ofCoords w⟩

theorem approximate_ofCoords (h : model.Coordinates Φ r) (y : Fin n → ℝ) :
    model.approximate (.ofCoords y) = .ok (.ofCoords (Φ *ᵥ (Φᵀ *ᵥ (y - r)) + r)) := by
  rw [approximate, h.project_ofCoords]
  exact h.reconstruct_ofCoords _

end Coordinates

theorem mem_trialSpace_iff (model : Galerkin σ ℝ) {y : Vec ℝ} :
    y ∈ model.trialSpace ↔ ∃ d ∈ model.span, Vec.sub y model.reference = .ok d := by
  obtain ⟨Φ, r, h⟩ := model.exists_coordinates
  rw [h.mem_trialSpace_iff, h.reference]
  constructor
  · rintro ⟨w, hw⟩
    exact ⟨_, h.mem_span_iff.2 ⟨w, rfl⟩, Vec.sub_eq_ok_iff.2 hw⟩
  · rintro ⟨d, hd, hsub⟩
    obtain ⟨w, rfl⟩ := h.mem_span_iff.1 hd
    exact ⟨w, Vec.sub_eq_ok_iff.1 hsub⟩

/-- Projecting undoes reconstructing exactly if the basis is orthonormal. -/
theorem orthonormal_iff_recovers (model : Galerkin σ ℝ) :
    model.Orthonormal ↔ ∀ z, z.size = model.basis.cols →
      ∃ y, model.reconstruct z = .ok y ∧ model.project y = .ok z := by
  obtain ⟨Φ, r, h⟩ := model.exists_coordinates
  have hproject (w : Fin model.basis.cols → ℝ) :
      model.project (.ofCoords (Φ *ᵥ w + r)) = .ok (.ofCoords ((Φᵀ * Φ) *ᵥ w)) := by
    rw [h.project_ofCoords, add_sub_cancel_right, mulVec_mulVec]
  rw [h.orthonormal_iff]
  constructor
  · intro horthonormal z hz
    obtain ⟨w, rfl⟩ := Vec.exists_ofCoords hz
    refine ⟨_, h.reconstruct_ofCoords w, ?_⟩
    rw [hproject, horthonormal, one_mulVec]
  · intro hrecovers
    rw [ext_iff_mulVec]
    intro w
    obtain ⟨y, hy, hz⟩ := hrecovers (.ofCoords w) (Vec.size_ofCoords w)
    rw [h.reconstruct_ofCoords, Except.ok.injEq] at hy
    rw [← hy, hproject, Except.ok.injEq] at hz
    rw [one_mulVec, Vec.ofCoords_injective hz]

section Orthonormal

variable {model : Galerkin σ ℝ} (horthonormal : model.Orthonormal)

include horthonormal

theorem approximate_of_mem {y : Vec ℝ} (hy : y ∈ model.trialSpace) :
    model.approximate y = .ok y := by
  obtain ⟨Φ, r, h⟩ := model.exists_coordinates
  obtain ⟨w, rfl⟩ := h.mem_trialSpace_iff.1 hy
  rw [h.approximate_ofCoords, add_sub_cancel_right, mulVec_mulVec _ Φᵀ Φ,
    h.orthonormal_iff.1 horthonormal, one_mulVec]

theorem approximate_eq_self_iff {y : Vec ℝ} :
    model.approximate y = .ok y ↔ y ∈ model.trialSpace := by
  refine ⟨fun h => ?_, approximate_of_mem horthonormal⟩
  obtain ⟨z, -, hz⟩ := exists_of_bind_ok h
  exact ⟨z, hz⟩

end Orthonormal

/-- For an orthonormal basis, projecting undoes reconstructing, and approximating a state
by what its reduced coordinates stand for is the orthogonal projection onto the trial
space.  It keeps a state exactly if that differs from the reference by a combination of
the columns; approximating twice is approximating once; and every state has an
approximation, the gap between the two is orthogonal to all combinations of the columns,
and every other point of the trial space is farther away. -/
theorem projects_orthogonally (model : Galerkin σ ℝ) (horthonormal : model.Orthonormal) :
    (∀ z, z.size = model.basis.cols →
      ∃ y, model.reconstruct z = .ok y ∧ model.project y = .ok z) ∧
    (∀ y, model.approximate y = .ok y ↔
      ∃ d ∈ model.span, Vec.sub y model.reference = .ok d) ∧
    ∀ y, y.size = model.full.velocityBuffer.size →
      ∃ near gap, model.approximate y = .ok near ∧ model.approximate near = .ok near ∧
        near ∈ model.trialSpace ∧ Vec.sub y near = .ok gap ∧
        (∀ d ∈ model.span, Vec.dot d gap = 0) ∧
        ∀ other ∈ model.trialSpace, other ≠ near →
          ∃ wider, Vec.sub y other = .ok wider ∧ Vec.norm gap < Vec.norm wider := by
  refine ⟨model.orthonormal_iff_recovers.1 horthonormal, fun y => ?_, fun y hy => ?_⟩
  · rw [approximate_eq_self_iff horthonormal, mem_trialSpace_iff]
  obtain ⟨Φ, r, h⟩ := model.exists_coordinates
  obtain ⟨v, rfl⟩ := Vec.exists_ofCoords hy
  have hΦ : Φᵀ * Φ = 1 := h.orthonormal_iff.1 horthonormal
  have horthogonal := transpose_mulVec_gap hΦ (v - r)
  have hnear : .ofCoords (Φ *ᵥ (Φᵀ *ᵥ (v - r)) + r) ∈ model.trialSpace :=
    h.mem_trialSpace_iff.2 ⟨_, rfl⟩
  refine ⟨_, .ofCoords (v - r - Φ *ᵥ (Φᵀ *ᵥ (v - r))), h.approximate_ofCoords v,
    approximate_of_mem horthonormal hnear, hnear, ?_, fun d hd => ?_, fun other hother hne => ?_⟩
  · rw [Vec.sub_ofCoords, sub_sub, add_comm r]
  · obtain ⟨w, rfl⟩ := h.mem_span_iff.1 hd
    rw [Vec.dot_ofCoords, mulVec_dotProduct, horthogonal, dotProduct_zero]
  · obtain ⟨w, rfl⟩ := h.mem_trialSpace_iff.1 hother
    have hmoved : Φᵀ *ᵥ (v - r) - w ≠ 0 := by
      intro heq
      rw [sub_eq_zero.1 heq] at hne
      exact hne rfl
    refine ⟨_, Vec.sub_ofCoords v _, ?_⟩
    rw [sub_eq_gap_add]
    exact norm_lt_norm_add_mulVec hΦ horthogonal hmoved

/-- Three components that keep their values, reduced to a tilted plane that misses the
origin.  Of the points of the plane one has distance 3 from the state, and all others are
farther away. -/
theorem projects_orthogonally_tilted :
    ∃ model : Galerkin Unit ℝ,
      ofBasis (Polynomial.system ⟨3, []⟩) (.ofMatrix !![2 / 3, -2 / 3; 2 / 3, 1 / 3; 1 / 3, 2 / 3])
        (.ofCoords ![1, 0, 0]) = .ok model ∧
      model.Orthonormal ∧
      (∃ y, model.reconstruct (.ofCoords ![3, 0]) = .ok y ∧
        model.project y = .ok (.ofCoords ![3, 0])) ∧
      model.approximate (.ofCoords ![4, 0, 3]) = .ok (.ofCoords ![3, 2, 1]) ∧
      model.approximate (.ofCoords ![3, 2, 1]) = .ok (.ofCoords ![3, 2, 1]) ∧
      (∀ d ∈ model.span, Vec.dot d (.ofCoords ![1, -2, 2]) = 0) ∧
      ∀ other ∈ model.trialSpace, other ≠ .ofCoords ![3, 2, 1] →
        ∃ wider, Vec.sub (.ofCoords ![4, 0, 3]) other = .ok wider ∧ 3 < Vec.norm wider := by
  let Φ : Matrix (Fin 3) (Fin 2) ℝ := !![2 / 3, -2 / 3; 2 / 3, 1 / 3; 1 / 3, 2 / 3]
  let full : ContinuousSystem Unit ℝ := Polynomial.system ⟨3, []⟩
  have hsize (v : Fin 3 → ℝ) : (Vec.ofCoords v).size = full.velocityBuffer.size :=
    (Vec.size_ofCoords v).trans Array.size_replicate.symm
  let model : Galerkin Unit ℝ := ⟨full, .ofMatrix Φ, .ofCoords ![1, 0, 0],
    (Mat.rows_ofMatrix Φ).trans Array.size_replicate.symm, hsize _⟩
  have h : model.Coordinates Φ ![1, 0, 0] := ⟨rfl, rfl⟩
  have horthonormal : model.Orthonormal := by
    rw [h.orthonormal_iff]
    ext i j
    fin_cases i <;> fin_cases j <;> norm_num [Φ, Matrix.mul_apply, Fin.sum_univ_succ]
  have happroximate : model.approximate (.ofCoords ![4, 0, 3]) = .ok (.ofCoords ![3, 2, 1]) := by
    have hprojected : Φᵀ *ᵥ (![4, 0, 3] - ![1, 0, 0]) = ![3, 0] := by
      ext i
      fin_cases i <;> norm_num [Φ, mulVec, dotProduct, Fin.sum_univ_succ]
    rw [h.approximate_ofCoords, hprojected]
    congr 2
    ext i
    fin_cases i <;> norm_num [Φ, mulVec, dotProduct, Fin.sum_univ_succ]
  obtain ⟨hrecovers, -, hnearest⟩ := projects_orthogonally model horthonormal
  have hcols : (Vec.ofCoords ![(3 : ℝ), 0]).size = model.basis.cols := by
    rw [h.cols_eq, Vec.size_ofCoords]
  obtain ⟨near, gap, hnear, hkept, -, hgap, horthogonal, hfarther⟩ := hnearest _ (hsize ![4, 0, 3])
  cases happroximate.symm.trans hnear
  have hleft : (![4, 0, 3] - ![3, 2, 1] : Fin 3 → ℝ) = ![1, -2, 2] := by
    ext i
    fin_cases i <;> norm_num
  have hdistance : Vec.norm (.ofCoords ![1, -2, 2]) = 3 := by
    have hsquare : (![1, -2, 2] : Fin 3 → ℝ) ⬝ᵥ ![1, -2, 2] = 3 ^ 2 := by
      norm_num [dotProduct, Fin.sum_univ_succ]
    rw [Vec.norm_ofCoords, hsquare, Real.sqrt_sq (by norm_num)]
  rw [Vec.sub_ofCoords, hleft] at hgap
  cases hgap
  rw [hdistance] at hfarther
  exact ⟨model, dif_pos ⟨model.rows_basis, model.size_reference⟩, horthonormal,
    hrecovers _ hcols, happroximate, hkept, horthogonal, hfarther⟩

end Galerkin

end TimeStepping
