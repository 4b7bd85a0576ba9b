import Mathlib.Algebra.Polynomial.Eval.Degree
import Mathlib.Analysis.Calculus.Deriv.Add
import Mathlib.Analysis.Calculus.Deriv.Mul
import Mathlib.Analysis.Calculus.Deriv.Pow
import TimeStepping.Difference
import TimeStepping.Proofs.Burgers

/-!
# Central differences of quadratic systems

A central difference of a quadratic is its slope in the middle, whatever the displacement.
So the Jacobian by central differences is exact for a system that is quadratic along each
coordinate, as the Burgers equation and its reduced models are.  Main statement:
`Difference.exact_on_quadratic_systems`.
-/

open Polynomial

namespace TimeStepping

open Matrix

variable {σ : Type} {n m k : Nat}

/-! ## Quadratics in one variable -/

/-- The function is a quadratic, with the given slope at `x`. -/
def QuadraticAt (g : ℝ → ℝ) (x slope : ℝ) : Prop :=
  ∃ c, ∀ d, g (x + d) = g x + slope * d + c * d ^ 2

namespace QuadraticAt

variable {g : ℝ → ℝ} {x slope : ℝ}

theorem quotient_eq (h : QuadraticAt g x slope) {d : ℝ} (hd : d ≠ 0) :
    (g (x + d) - g (x - d)) / (2 * d) = slope := by
  obtain ⟨c, hc⟩ := h
  rw [sub_eq_add_neg x d, hc, hc]
  field_simp
  ring

theorem hasDerivAt (h : QuadraticAt g x slope) : HasDerivAt g slope x := by
  obtain ⟨c, hc⟩ := h
  have hshift : g = fun s => g x + slope * (s - x) + c * (s - x) ^ 2 := by
    funext s
    rw [← hc, add_sub_cancel]
  have hmove : HasDerivAt (fun s => s - x) 1 x := (hasDerivAt_id x).sub_const x
  have hlinear : HasDerivAt (fun s => g x + slope * (s - x)) (slope * 1) x :=
    (HasDerivAt.const_mul slope hmove).const_add (g x)
  have hsquare : HasDerivAt (fun s => c * (s - x) ^ 2) (c * (2 * (x - x) ^ 1 * 1)) x :=
    HasDerivAt.const_mul c (HasDerivAt.pow hmove 2)
  rw [hshift]
  exact HasDerivAt.congr_deriv (HasDerivAt.add hlinear hsquare) (by simp)

theorem of_natDegree_le_two {p : ℝ[X]} (hp : p.natDegree ≤ 2) (x : ℝ) :
    ∃ slope, QuadraticAt (p.eval ·) x slope := by
  have heval : ∀ s, p.eval s = p.coeff 0 + p.coeff 1 * s + p.coeff 2 * s ^ 2 := by
    intro s
    rw [eval_eq_sum_range' (Nat.lt_succ_of_le hp), Finset.sum_range_succ, Finset.sum_range_succ,
      Finset.sum_range_one]
    ring
  refine ⟨p.coeff 1 + 2 * p.coeff 2 * x, p.coeff 2, fun d => ?_⟩
  simp only [heval]
  ring

end QuadraticAt

/-! ## Quadratic systems -/

/-- Every component is a polynomial of degree at most two in each variable alone. -/
def SeparatelyQuadratic (F : (Fin n → ℝ) → Fin m → ℝ) : Prop :=
  ∀ y i j, ∃ p : ℝ[X], p.natDegree ≤ 2 ∧ ∀ s, F (Function.update y j s) i = p.eval s

theorem SeparatelyQuadratic.exists_slope {F : (Fin n → ℝ) → Fin m → ℝ}
    (h : SeparatelyQuadratic F) (y : Fin n → ℝ) (i : Fin m) (j : Fin n) :
    ∃ slope, QuadraticAt (fun s => F (Function.update y j s) i) (y j) slope := by
  obtain ⟨p, hp, heval⟩ := h y i j
  simp only [heval]
  exact QuadraticAt.of_natDegree_le_two hp (y j)

/-- What the Jacobian leaves of a change grows with the square of the change. -/
def Quadratic (F : (Fin n → ℝ) → Fin m → ℝ) (J : (Fin n → ℝ) → Matrix (Fin m) (Fin n) ℝ) : Prop :=
  ∀ x v (s : ℝ), remainder F J x (s • v) = s ^ 2 • remainder F J x v

/-- Along a coordinate the slope is the entry of the Jacobian. -/
theorem Quadratic.quadraticAt {F : (Fin n → ℝ) → Fin m → ℝ}
    {J : (Fin n → ℝ) → Matrix (Fin m) (Fin n) ℝ} (h : Quadratic F J) (y : Fin n → ℝ) (i : Fin m)
    (j : Fin n) : QuadraticAt (fun s => F (Function.update y j s) i) (y j) (J y i j) := by
  refine ⟨remainder F J y (Pi.single j 1) i, fun d => ?_⟩
  have hmove : Function.update y j (y j + d) = y + d • Pi.single j 1 := by
    funext l
    by_cases hl : l = j
    · subst hl
      simp
    · simp [hl]
  have hchange := congrFun (h y (Pi.single j 1) d) i
  simp only [remainder, Pi.sub_apply, Pi.smul_apply, smul_eq_mul, mulVec_smul,
    mulVec_single_one, col_apply] at hchange
  simp only [remainder, Pi.sub_apply, hmove, Function.update_eq_self, mulVec_single_one, col_apply]
  linear_combination hchange

theorem Quadratic.separatelyQuadratic {F : (Fin n → ℝ) → Fin m → ℝ}
    {J : (Fin n → ℝ) → Matrix (Fin m) (Fin n) ℝ} (h : Quadratic F J) : SeparatelyQuadratic F := by
  intro y i j
  obtain ⟨c, hc⟩ := h.quadraticAt y i j
  refine ⟨C (F y i) + C (J y i j) * (X - C (y j)) + C c * (X - C (y j)) ^ 2, ?_, fun s => ?_⟩
  · compute_degree
  · have hvalue := hc (s - y j)
    simp only [add_sub_cancel, Function.update_eq_self] at hvalue
    simp [hvalue]

theorem Quadratic.reduced {f : (Fin n → ℝ) → Fin n → ℝ}
    {J : (Fin n → ℝ) → Matrix (Fin n) (Fin n) ℝ} (h : Quadratic f J)
    (Φ : Matrix (Fin n) (Fin k) ℝ) (r : Fin n → ℝ) :
    Quadratic (fun z => Φᵀ *ᵥ f (Φ *ᵥ z + r)) fun z => Φᵀ * (J (Φ *ᵥ z + r) * Φ) := by
  intro z w s
  rw [remainder_reduced, remainder_reduced, mulVec_smul, h, mulVec_smul]

theorem Burgers.quadratic [Exponential ℝ] (model : Burgers ℝ) :
    Quadratic (model.rates : (Fin n → ℝ) → Fin n → ℝ) model.partials := by
  intro u v s
  funext i
  rw [Pi.smul_apply, remainder_eq, remainder_eq, flux_undriven_smul, smul_eq_mul]

/-! ## The columns -/

namespace Difference

theorem displacement_pos (x : ℝ) : 0 < displacement x := by
  rw [displacement, Scalar.larger_real, Scalar.ratio_real]
  exact lt_max_of_lt_right (by norm_num)

/-- The central differences of a function at `y`, each along one coordinate. -/
noncomputable def quotients (F : (Fin n → ℝ) → Fin m → ℝ) (y : Fin n → ℝ) :
    Matrix (Fin m) (Fin n) ℝ :=
  .of fun i j =>
    let h := displacement (y j)
    (F (Function.update y j (y j + h)) i - F (Function.update y j (y j - h)) i) /
      (((2 : Nat) : ℝ) * h)

theorem quotients_of_quadraticAt {F : (Fin n → ℝ) → Fin m → ℝ} {y : Fin n → ℝ} {i : Fin m}
    {j : Fin n} {slope : ℝ}
    (h : QuadraticAt (fun s => F (Function.update y j s) i) (y j) slope) :
    quotients F y i j = slope :=
  h.quotient_eq (displacement_pos (y j)).ne'

variable {system : ContinuousSystem σ ℝ} {time : ℝ} {F : (Fin n → ℝ) → Fin m → ℝ}

/-- One column, whose two evaluations leave the buffers for the next. -/
theorem columnsFrom_succ (hF : (system.frozenAt time).HasResidual Set.univ F) (y : Fin n → ℝ)
    (j : Fin n) (remaining : Nat) {plus minus : Vec ℝ} (hplus : plus.size = m)
    (hminus : minus.size = m) (columns : List (Vec ℝ)) (env : σ) :
    ∃ above below after, above.size = m ∧ below.size = m ∧
      columnsFrom system (.ofCoords y) time (remaining + 1) j plus minus columns env =
        columnsFrom system (.ofCoords y) time remaining (j + 1) above below
          (columns ++ [.ofCoords fun i => quotients F y i j]) after := by
  let h := displacement (y j)
  let above := F (Function.update y j (y j + h))
  let below := F (Function.update y j (y j - h))
  have hcolumn : column h (.ofCoords above) (.ofCoords below) =
      .ofCoords fun i => quotients F y i j := Vec.zipWith_ofCoords _ above below
  have habove : (system.velocity (.ofCoords (Function.update y j (y j + h))) time plus env).1 =
      .done (.ofCoords above) := hF.eval (Set.mem_univ _) hplus env
  have hbelow : ∀ env, (system.velocity (.ofCoords (Function.update y j (y j - h))) time minus
      env).1 = .done (.ofCoords below) := hF.eval (Set.mem_univ _) hminus
  rw [columnsFrom, Vec.entry_ofCoords]
  dsimp only
  rw [Vec.setIfInBounds_ofCoords, Vec.setIfInBounds_ofCoords, bind_apply, habove]
  dsimp only [Outcome.done]
  rw [bind_apply, hbelow, ← hcolumn]
  exact ⟨_, _, _, Vec.size_ofCoords above, Vec.size_ofCoords below, rfl⟩

/-- The columns of a function at `y`. -/
noncomputable def columns (F : (Fin n → ℝ) → Fin m → ℝ) (y : Fin n → ℝ) : List (Vec ℝ) :=
  (List.finRange n).map fun j => .ofCoords fun i => quotients F y i j

theorem columnsFrom_done (hF : (system.frozenAt time).HasResidual Set.univ F) (y : Fin n → ℝ)
    {remaining i : Nat} (hcount : i + remaining = n) {plus minus : Vec ℝ} (hplus : plus.size = m)
    (hminus : minus.size = m) (env : σ) :
    (columnsFrom system (.ofCoords y) time remaining i plus minus ((columns F y).take i) env).1 =
      .done (columns F y) := by
  have hlength : (columns F y).length = n := by simp [columns]
  induction remaining generalizing i plus minus env with
  | zero =>
      rw [List.take_of_length_le (by omega)]
      rfl
  | succ remaining ih =>
      have hi : i < n := by omega
      obtain ⟨above, below, after, habove, hbelow, heq⟩ :=
        columnsFrom_succ hF y ⟨i, hi⟩ remaining hplus hminus ((columns F y).take i) env
      have htake : (columns F y).take i ++ [.ofCoords fun l => quotients F y l ⟨i, hi⟩] =
          (columns F y).take (i + 1) := by
        rw [List.take_succ_eq_append_getElem (by omega)]
        simp [columns]
      have hrest : i + 1 + remaining = n := by omega
      rw [heq, htake]
      exact ih hrest habove hbelow after

theorem jacobian_done (hF : (system.frozenAt time).HasResidual Set.univ F) (y : Fin n → ℝ)
    (env : σ) :
    (jacobian system (.ofCoords y) time env).1 = .done (.ofMatrix (quotients F y)) := by
  have hsize : system.velocityBuffer.size = m := hF.size_buffer
  have hcolumns := columnsFrom_done hF y (Nat.zero_add n) hsize hsize env
  rw [List.take_zero] at hcolumns
  rw [jacobian, bind_apply, Vec.size_ofCoords, hcolumns, hsize]
  change Outcome.done (Mat.ofMatrix _) = _
  congr 2
  ext i j
  simp [columns, Outcome.done]

/-- The central differences and the Jacobian of the system are completed and agree. -/
def ExactAt (system : ContinuousSystem σ ℝ) (state : Vec ℝ) (time : ℝ) : Prop :=
  ∀ env, ∃ J, (jacobian system state time env).1 = .done J ∧
    (system.jacobian state time system.jacobianBuffer env).1 = .done J

theorem exactAt_of_quadratic {J : (Fin n → ℝ) → Matrix (Fin m) (Fin n) ℝ}
    (hF : (system.frozenAt time).HasResidual Set.univ F)
    (hJ : (system.frozenAt time).HasJacobian Set.univ J) (h : Quadratic F J) (y : Fin n → ℝ) :
    ExactAt system (.ofCoords y) time := by
  intro env
  have hquotients : quotients F y = J y := by
    ext i j
    exact quotients_of_quadraticAt (h.quadraticAt y i j)
  refine ⟨.ofMatrix (J y), ?_, hJ.eval (Set.mem_univ y) hJ.shape_buffer env⟩
  rw [jacobian_done hF, hquotients]

theorem exactAt_of_quadratic_full {model : Galerkin σ ℝ} {f : (Fin n → ℝ) → Fin n → ℝ}
    {J : (Fin n → ℝ) → Matrix (Fin n) (Fin n) ℝ}
    (hf : (model.full.frozenAt time).HasResidual Set.univ f)
    (hJ : (model.full.frozenAt time).HasJacobian Set.univ J) (h : Quadratic f J) {z : Vec ℝ}
    (hz : z.size = model.basis.cols) : ExactAt model.system z time := by
  obtain rfl : model.full.velocityBuffer.size = n := hf.size_buffer
  obtain ⟨Φ, r, hmodel⟩ := model.exists_coordinates
  obtain ⟨w, rfl⟩ := Vec.exists_ofCoords hz
  exact exactAt_of_quadratic (hf.reduced hmodel) (hJ.reduced hmodel) (h.reduced Φ r) w

/-- Central differences are exact for a velocity of degree at most two in each single
component of the state: they are the partial derivatives.  For the Burgers equation, on any
number of cells, and for its reduced models over any basis and reference, they agree with
the Jacobian. -/
theorem exact_on_quadratic_systems [Exponential ℝ] :
    (∀ {n m : Nat} (system : ContinuousSystem σ ℝ) (time : ℝ) (F : (Fin n → ℝ) → Fin m → ℝ),
      (system.frozenAt time).HasResidual Set.univ F → SeparatelyQuadratic F →
        ∀ y, ∃ D : Matrix (Fin m) (Fin n) ℝ,
          (∀ i j, HasDerivAt (fun s => F (Function.update y j s) i) (D i j) (y j)) ∧
          ∀ env, (jacobian system (.ofCoords y) time env).1 = .done (.ofMatrix D)) ∧
    ∀ (parameters : Burgers.Parameters ℝ) {cells : Nat}, 0 < cells →
      ∃ model, Burgers.ofCells parameters cells = .ok model ∧
        (∀ (u : Vec ℝ) (time : ℝ), u.size = cells →
          ExactAt (model.system : ContinuousSystem σ ℝ) u time) ∧
        ∀ (basis : Mat ℝ) (reference : Vec ℝ), basis.rows = cells → reference.size = cells →
          ∃ reduced : Galerkin σ ℝ, Galerkin.ofBasis model.system basis reference = .ok reduced ∧
            ∀ (z : Vec ℝ) (time : ℝ), z.size = basis.cols → ExactAt reduced.system z time := by
  constructor
  · intro n m system time F hF hquadratic y
    refine ⟨quotients F y, fun i j => ?_, fun env => jacobian_done hF y env⟩
    obtain ⟨slope, hslope⟩ := hquadratic.exists_slope y i j
    rw [quotients_of_quadraticAt hslope]
    exact hslope.hasDerivAt
  · intro parameters cells hcells
    obtain ⟨model, hmodel, rfl⟩ := Burgers.exists_ofCells parameters hcells
    let full : ContinuousSystem σ ℝ := model.system
    have hf (time : ℝ) : (full.frozenAt time).HasResidual Set.univ model.rates :=
      Burgers.hasResidual rfl hcells time
    have hJ (time : ℝ) : (full.frozenAt time).HasJacobian Set.univ model.partials :=
      Burgers.hasJacobian rfl hcells time
    refine ⟨model, hmodel, fun u time hu => ?_, fun basis reference hrows hreference => ?_⟩
    · obtain ⟨v, rfl⟩ := Vec.exists_ofCoords hu
      exact exactAt_of_quadratic (hf time) (hJ time) model.quadratic v
    · have hsize : full.velocityBuffer.size = model.cells := (hf 0).size_buffer
      refine ⟨_, dif_pos ⟨hrows.trans hsize.symm, hreference.trans hsize.symm⟩, ?_⟩
      exact fun z time hz => exactAt_of_quadratic_full (hf time) (hJ time) model.quadratic hz

theorem exact_on_coupled_system :
    SeparatelyQuadratic Coupled.velocity ∧
      (jacobian Coupled.system (.ofCoords ![3, 4]) 0 ()).1 =
        .done (.ofMatrix (Coupled.jacobian ![3, 4])) := by
  let _ : Exponential ℝ := ⟨fun x => x⟩
  have hquadratic : Quadratic Coupled.velocity Coupled.jacobian := by
    intro y v s
    simp only [Coupled.remainder_eq]
    ext i
    fin_cases i <;> simp <;> ring
  refine ⟨hquadratic.separatelyQuadratic, ?_⟩
  obtain ⟨D, hD, hdone⟩ := exact_on_quadratic_systems.1 Coupled.system 0 Coupled.velocity
    (Coupled.hasResidual 0) hquadratic.separatelyQuadratic ![3, 4]
  have hpartials : D = Coupled.jacobian ![3, 4] := by
    ext i j
    exact HasDerivAt.unique (hD i j) (hquadratic.quadraticAt ![3, 4] i j).hasDerivAt
  rw [hdone, hpartials]

end Difference

end TimeStepping
