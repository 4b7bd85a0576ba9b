import TimeStepping.Proofs.Linearization
import TimeStepping.Models.Burgers

/-!
# The Burgers equation in coordinates

Over the real numbers the velocity of the discretized equation and its Jacobian are
functions of the cells, whatever the exponential function is.  What the Jacobian leaves
of a change of the cells is the flux of the change, with nothing flowing in.
-/

namespace TimeStepping

open Matrix

namespace Burgers

variable {σ : Type} {n : Nat}

theorem exists_ofCells (parameters : Parameters ℝ) {cells : Nat} (hpos : 0 < cells) :
    ∃ model, ofCells parameters cells = .ok model ∧ model.cells = cells := by
  rw [ofCells, if_neg (by omega)]
  exact ⟨_, rfl, Array.size_ofFn⟩

/-! ## Fluxes -/

/-- The equation with nothing flowing in. -/
def undriven (model : Burgers ℝ) : Burgers ℝ :=
  { model with parameters.inflow := 0 }

theorem flux_ofCoords (model : Burgers ℝ) (u : Fin n → ℝ) (i : Fin n) :
    model.flux (.ofCoords u) i =
      1 / 2 / model.width *
        (model.upwind (.ofCoords u) i * model.upwind (.ofCoords u) i - u i * u i) := by
  simp [flux]

theorem upwind_add (model : Burgers ℝ) (u v : Fin n → ℝ) (i : Fin n) :
    model.upwind (.ofCoords (u + v)) i =
      model.upwind (.ofCoords u) i + model.undriven.upwind (.ofCoords v) i := by
  obtain ⟨_ | i, hi⟩ := i
  · simp [upwind, undriven]
  · have hbefore : i < n := by omega
    simp [upwind, hbefore]

theorem upwind_undriven_smul (model : Burgers ℝ) (s : ℝ) (v : Fin n → ℝ) (i : Fin n) :
    model.undriven.upwind (.ofCoords (s • v)) i = s * model.undriven.upwind (.ofCoords v) i := by
  obtain ⟨_ | i, hi⟩ := i
  · simp [upwind, undriven]
  · have hbefore : i < n := by omega
    simp [upwind, hbefore]

theorem flux_undriven_smul (model : Burgers ℝ) (s : ℝ) (v : Fin n → ℝ) (i : Fin n) :
    model.undriven.flux (.ofCoords (s • v)) i =
      s ^ 2 * model.undriven.flux (.ofCoords v) i := by
  rw [flux_ofCoords, flux_ofCoords, upwind_undriven_smul, Pi.smul_apply, smul_eq_mul]
  ring

/-! ## The Jacobian -/

/-- The Jacobian, as a function of the cells. -/
noncomputable def partials (model : Burgers ℝ) (u : Fin n → ℝ) : Matrix (Fin n) (Fin n) ℝ :=
  .of fun i j => model.jacobianEntry (.ofCoords u) i j

/-- A row has one entry on the diagonal and one before it. -/
theorem partials_mulVec (model : Burgers ℝ) (u v : Fin n → ℝ) (i : Fin n) :
    (model.partials u *ᵥ v) i =
      1 / model.width *
        (model.upwind (.ofCoords u) i * model.undriven.upwind (.ofCoords v) i - u i * v i) := by
  have hterms : ∀ j : Fin n, model.partials u i j * v j =
      (if j = i then -(1 / model.width) * u i * v i else 0) +
        if j.val + 1 = i then 1 / model.width * u j * v j else 0 := by
    intro j
    rw [partials, of_apply, jacobianEntry, if_neg (by simp)]
    by_cases hdiagonal : j = i
    · subst hdiagonal
      simp
    · rw [if_neg (by omega), if_neg hdiagonal, zero_add]
      split <;> simp
  have hbefore : ∑ j : Fin n, (if j.val + 1 = i then 1 / model.width * u j * v j else 0) =
      1 / model.width *
        (model.upwind (.ofCoords u) i * model.undriven.upwind (.ofCoords v) i) := by
    obtain ⟨_ | k, hk⟩ := i
    · simp [upwind, undriven]
    · have hlt : k < n := by omega
      have hcell : ∀ j : Fin n, j.val = k ↔ j = ⟨k, hlt⟩ := fun j => by rw [Fin.ext_iff]
      simp [hcell, upwind, hlt, mul_assoc]
  rw [mulVec, dotProduct, Finset.sum_congr rfl fun j _ => hterms j, Finset.sum_add_distrib, hbefore,
    Finset.sum_ite_eq' Finset.univ i, if_pos (Finset.mem_univ i)]
  ring

/-! ## Evaluations -/

variable [Exponential ℝ]

/-- The velocity, as a function of the cells. -/
noncomputable def rates (model : Burgers ℝ) (u : Fin n → ℝ) (i : Fin n) : ℝ :=
  model.flux (.ofCoords u) i + model.source (model.grid.getD i 0)

theorem hasResidual {model : Burgers ℝ} (hcells : model.cells = n) (hpos : 0 < n) (time : ℝ) :
    (model.system.frozenAt time : AlgebraicSystem σ ℝ).HasResidual
      (Set.univ : Set (Fin n → ℝ)) model.rates := by
  constructor
  case size_buffer =>
    change (Vec.zeros model.cells : Vec ℝ).size = n
    rw [hcells, Vec.zeros_eq_ofCoords, Vec.size_ofCoords]
  case eval =>
    intro u _ buffer hbuffer env
    have hfits : ¬((Vec.ofCoords u).size = 0 ∨ buffer.size < (Vec.ofCoords u).size ∨
        model.cells < (Vec.ofCoords u).size) := by
      simp only [Vec.size_ofCoords]
      omega
    have hvalue : buffer.mapIdx (fun i kept => if i < (Vec.ofCoords u).size then
        model.flux (.ofCoords u) i + model.source (model.grid.getD i 0) else kept) =
        Vec.ofCoords (model.rates u) := by
      apply Array.ext
      · simp [hbuffer]
      · intro i h₁ h₂
        have hi : i < n := by simpa using h₂
        simp [hi, rates]
    change Outcome.ofChecked buffer (model.velocity _ buffer) = _
    rw [velocity, if_neg hfits, hvalue]
    rfl

theorem hasJacobian {model : Burgers ℝ} (hcells : model.cells = n) (hpos : 0 < n) (time : ℝ) :
    (model.system.frozenAt time : AlgebraicSystem σ ℝ).HasJacobian
      (Set.univ : Set (Fin n → ℝ)) model.partials := by
  constructor
  case shape_buffer =>
    change (Mat.zeros model.cells model.cells : Mat ℝ).rows = n ∧
      (Mat.zeros model.cells model.cells : Mat ℝ).cols = n
    rw [hcells, Mat.zeros_eq_ofMatrix, Mat.rows_ofMatrix, Mat.cols_ofMatrix]
    exact ⟨rfl, rfl⟩
  case eval =>
    intro u _ buffer hbuffer env
    have hsize := Vec.size_ofCoords u
    change Outcome.ofChecked buffer (model.jacobian _ buffer) = _
    rw [model.jacobian_of_fits (by omega) (by omega) (by omega), hbuffer.1, hbuffer.2]
    rfl

/-- What the Jacobian leaves of a change is the flux of the change, with nothing flowing in. -/
theorem remainder_eq (model : Burgers ℝ) (u v : Fin n → ℝ) (i : Fin n) :
    remainder model.rates model.partials u v i = model.undriven.flux (.ofCoords v) i := by
  change model.rates (u + v) i - model.rates u i - (model.partials u *ᵥ v) i = _
  rw [partials_mulVec, rates, rates, flux_ofCoords, flux_ofCoords, flux_ofCoords, upwind_add]
  simp [undriven]
  ring

end Burgers

end TimeStepping
