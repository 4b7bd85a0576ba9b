import Mathlib.Algebra.BigOperators.Fin
import Mathlib.Data.Matrix.Mul
import TimeStepping.Linear.Mat
import TimeStepping.Proofs.Exact

/-!
# Coordinates

Vectors and matrices over the real numbers, as they are stored, against tuples of
coordinates and mathematical matrices.  Every stored value of a given shape has
coordinates, `Vec.exists_ofCoords` and `Mat.exists_ofMatrix`, and on values that do,
every checked operation succeeds and computes what it is named for.
-/

namespace TimeStepping

open Matrix

namespace Vec

variable {n : Nat}

/-- The stored vector with the given coordinates. -/
def ofCoords (v : Fin n → ℝ) : Vec ℝ :=
  Array.ofFn v

@[simp] theorem size_ofCoords (v : Fin n → ℝ) : (ofCoords v).size = n :=
  Array.size_ofFn

@[simp] theorem getElem_ofCoords (v : Fin n → ℝ) {i : Nat} (h : i < (ofCoords v).size) :
    (ofCoords v)[i] = v ⟨i, by simpa using h⟩ :=
  Array.getElem_ofFn h

theorem getD_ofCoords (v : Fin n → ℝ) (i : Fin n) (a : ℝ) : (ofCoords v).getD i a = v i := by
  simp

theorem exists_ofCoords {x : Vec ℝ} (h : x.size = n) : ∃ v : Fin n → ℝ, x = ofCoords v := by
  subst h
  exact ⟨fun i => x[i], by simp [ofCoords]⟩

theorem exists_map_ofCoords {states : List (Vec ℝ)} (h : ∀ state ∈ states, state.size = n) :
    ∃ vs : List (Fin n → ℝ), states = vs.map ofCoords := by
  induction states with
  | nil => exact ⟨[], rfl⟩
  | cons state states ih =>
      obtain ⟨v, rfl⟩ := exists_ofCoords (h state List.mem_cons_self)
      obtain ⟨vs, rfl⟩ := ih fun other hother => h other (List.mem_cons_of_mem _ hother)
      exact ⟨v :: vs, rfl⟩

theorem ofCoords_injective : Function.Injective (ofCoords : (Fin n → ℝ) → Vec ℝ) := by
  intro v w h
  funext i
  have hi : (ofCoords v)[i.val]? = (ofCoords w)[i.val]? := by rw [h]
  simpa using hi

theorem ofCoords_ext_single {v w : Fin 1 → ℝ} (h : v 0 = w 0) : ofCoords v = ofCoords w := by
  congr 1
  funext i
  rwa [Subsingleton.elim i 0]

theorem entry_ofCoords (v : Fin n → ℝ) (i : Fin n) : entry (ofCoords v) i = .ok (v i) := by
  simp [entry]

theorem setIfInBounds_ofCoords (v : Fin n → ℝ) (i : Fin n) (a : ℝ) :
    (ofCoords v).setIfInBounds i a = ofCoords (Function.update v i a) := by
  apply Array.ext
  · simp
  · intro j h₁ h₂
    have hj : j < (ofCoords v).size := by simpa using h₁
    rw [Array.getElem_setIfInBounds hj, getElem_ofCoords, getElem_ofCoords]
    simp [Function.update_apply, Fin.ext_iff, eq_comm]

theorem zipWith_ofCoords (f : ℝ → ℝ → ℝ) (v w : Fin n → ℝ) :
    Array.zipWith f (ofCoords v) (ofCoords w) = ofCoords fun i => f (v i) (w i) := by
  apply Array.ext
  · simp
  · intro i h₁ h₂
    simp

theorem combine_ofCoords (f : ℝ → ℝ → ℝ) (v w : Fin n → ℝ) :
    combine f (ofCoords v) (ofCoords w) = .ok (ofCoords fun i => f (v i) (w i)) := by
  rw [combine, if_pos (by simp), zipWith_ofCoords]

theorem add_ofCoords (v w : Fin n → ℝ) :
    add (ofCoords v) (ofCoords w) = .ok (ofCoords (v + w)) :=
  combine_ofCoords _ v w

theorem sub_ofCoords (v w : Fin n → ℝ) :
    sub (ofCoords v) (ofCoords w) = .ok (ofCoords (v - w)) :=
  combine_ofCoords _ v w

theorem axpy_ofCoords (a : ℝ) (v w : Fin n → ℝ) :
    axpy a (ofCoords v) (ofCoords w) = .ok (ofCoords (a • v + w)) :=
  combine_ofCoords _ v w

theorem map_ofCoords (f : ℝ → ℝ) (v : Fin n → ℝ) :
    (ofCoords v).map f = ofCoords fun i => f (v i) := by
  apply Array.ext
  · simp
  · intro i h₁ h₂
    simp

theorem scale_ofCoords (c : ℝ) (v : Fin n → ℝ) : scale c (ofCoords v) = ofCoords (c • v) :=
  map_ofCoords _ v

theorem negate_ofCoords (v : Fin n → ℝ) : negate (ofCoords v) = ofCoords (-v) :=
  map_ofCoords _ v

theorem zeros_eq_ofCoords (n : Nat) : (zeros n : Vec ℝ) = ofCoords (0 : Fin n → ℝ) := by
  apply Array.ext
  · simp [zeros]
  · intro i h₁ h₂
    simp [zeros]

/-! ## Sums of products -/

theorem Lanes.total_real (s : Lanes ℝ) :
    s.total = s.s0 + s.s1 + s.s2 + s.s3 + s.s4 + s.s5 + s.s6 + s.s7 := by
  simp only [Lanes.total, zero_add]
  ring

theorem foldl_add_real (a : ℝ) (terms : List ℝ) : terms.foldl (· + ·) a = a + terms.sum := by
  induction terms generalizing a with
  | nil => simp
  | cons term terms ih => rw [List.foldl_cons, ih, List.sum_cons, add_assoc]

/-- Over the real numbers the order of the additions is of no account. -/
theorem Lanes.sum_real (s : Lanes ℝ) (terms : List ℝ) : s.sum terms = s.total + terms.sum := by
  fun_induction Lanes.sum s terms with
  | case1 s a b c d e f g h rest ih =>
      rw [ih]
      simp only [Lanes.total_real, List.sum_cons]
      ring
  | case2 s rest _ => exact foldl_add_real s.total rest

theorem dot_ofCoords (v w : Fin n → ℝ) : dot (ofCoords v) (ofCoords w) = v ⬝ᵥ w := by
  rw [dot, zipWith_ofCoords, Lanes.sum_real, Lanes.total_real, ofCoords, Array.toList_ofFn,
    List.sum_ofFn]
  simp [Lanes.empty, dotProduct]

theorem norm_ofCoords (v : Fin n → ℝ) : norm (ofCoords v) = Real.sqrt (v ⬝ᵥ v) := by
  rw [norm, dot_ofCoords, Scalar.sqrt_real]

theorem norm_zeros (n : Nat) : norm (zeros n : Vec ℝ) = 0 := by
  rw [zeros_eq_ofCoords, norm_ofCoords, dotProduct_zero, Real.sqrt_zero]

end Vec

namespace Mat

open Vec

variable {n k l : Nat}

/-- The stored matrix with the given entries. -/
def ofMatrix (A : Matrix (Fin n) (Fin k) ℝ) : Mat ℝ where
  rows := n
  columns := Array.ofFn fun j => ofCoords fun i => A i j
  size_column := by
    intro column h
    obtain ⟨j, rfl⟩ := Array.mem_ofFn.1 h
    exact size_ofCoords _

@[simp] theorem rows_ofMatrix (A : Matrix (Fin n) (Fin k) ℝ) : (ofMatrix A).rows = n :=
  rfl

@[simp] theorem cols_ofMatrix (A : Matrix (Fin n) (Fin k) ℝ) : (ofMatrix A).cols = k :=
  Array.size_ofFn

theorem ext_columns {a b : Mat ℝ} (hrows : a.rows = b.rows) (hcolumns : a.columns = b.columns) :
    a = b := by
  cases a
  cases b
  cases hrows
  cases hcolumns
  rfl

theorem exists_ofMatrix {a : Mat ℝ} (hrows : a.rows = n) (hcols : a.cols = k) :
    ∃ A : Matrix (Fin n) (Fin k) ℝ, a = ofMatrix A := by
  have hcolumn (j : Nat) (h : j < a.columns.size) : (a.columns[j]).size = n :=
    (a.size_column _ (Array.getElem_mem h)).trans hrows
  refine ⟨.of fun i j => (a.columns.getD j #[]).getD i 0, ext_columns hrows ?_⟩
  apply Array.ext
  · simpa [ofMatrix, cols] using hcols
  · intro j h₁ h₂
    simp only [ofMatrix, Array.getElem_ofFn]
    apply Array.ext
    · simp [hcolumn j h₁]
    · intro i h₃ h₄
      simp [h₁, h₃]

theorem ofMatrix_injective :
    Function.Injective (ofMatrix : Matrix (Fin n) (Fin k) ℝ → Mat ℝ) := by
  intro A B h
  ext i j
  have hj : (ofMatrix A).columns[j.val]? = (ofMatrix B).columns[j.val]? := by rw [h]
  have hcolumn : (ofCoords fun i => A i j) = ofCoords fun i => B i j := by
    simpa [ofMatrix] using hj
  exact congrFun (ofCoords_injective hcolumn) i

theorem scale_ofMatrix (c : ℝ) (A : Matrix (Fin n) (Fin k) ℝ) :
    (ofMatrix A).scale c = ofMatrix (c • A) := by
  refine ext_columns rfl ?_
  apply Array.ext
  · simp [scale, map, ofMatrix]
  · intro j h₁ h₂
    simp only [scale, map, ofMatrix, Array.getElem_map, Array.getElem_ofFn]
    exact map_ofCoords _ _

theorem zeros_eq_ofMatrix (n k : Nat) :
    (zeros n k : Mat ℝ) = ofMatrix (0 : Matrix (Fin n) (Fin k) ℝ) :=
  rfl

/-! ## Adding the identity -/

theorem modify_ofMatrix (A : Matrix (Fin n) (Fin k) ℝ) (p q : Nat) (f : ℝ → ℝ) :
    (ofMatrix A).modify p q f =
      ofMatrix (.of fun i j => if i.val = p ∧ j.val = q then f (A i j) else A i j) := by
  refine ext_columns rfl ?_
  apply Array.ext
  · simp [modify, ofMatrix]
  · intro j h₁ h₂
    simp only [modify, ofMatrix, Array.getElem_modify, Array.getElem_ofFn, of_apply]
    apply Array.ext
    · split <;> simp
    · intro i h₃ h₄
      by_cases hq : q = j
      · by_cases hp : p = i
        · simp [hq, hp, Array.getElem_modify]
        · simp [hq, hp, Ne.symm hp, Array.getElem_modify]
      · simp [hq, Ne.symm hq]

theorem foldl_modify_ofMatrix (A : Matrix (Fin n) (Fin n) ℝ) (count : Nat) :
    (List.range count).foldl (fun b i => b.modify i i (· + 1)) (ofMatrix A) =
      ofMatrix (.of fun i j => if i.val = j.val ∧ j.val < count then A i j + 1 else A i j) := by
  induction count with
  | zero =>
      refine congrArg ofMatrix ?_
      ext i j
      simp
  | succ count ih =>
      rw [List.range_succ, List.foldl_append, ih, List.foldl_cons, List.foldl_nil, modify_ofMatrix]
      congr 1
      ext i j
      simp only [of_apply]
      by_cases hij : i.val = j.val
      · rcases Nat.lt_trichotomy j.val count with hlt | heq | hgt
        · rw [if_neg (by omega), if_pos ⟨hij, hlt⟩, if_pos ⟨hij, by omega⟩]
        · rw [if_pos ⟨by omega, heq⟩, if_neg (by omega), if_pos ⟨hij, by omega⟩]
        · rw [if_neg (by omega), if_neg (by omega), if_neg (by omega)]
      · rw [if_neg (by omega), if_neg (by omega), if_neg (by omega)]

theorem addIdentity_ofMatrix (A : Matrix (Fin n) (Fin n) ℝ) :
    (ofMatrix A).addIdentity = ofMatrix (A + 1) := by
  rw [addIdentity, rows_ofMatrix, cols_ofMatrix, Nat.min_self, foldl_modify_ofMatrix]
  congr 1
  ext i j
  simp only [of_apply, j.isLt, and_true, Matrix.add_apply, Matrix.one_apply, Fin.ext_iff]
  split <;> simp

/-! ## Products -/

theorem accumulate_ofCoords (v : Fin n → ℝ) (terms : List ((Fin n → ℝ) × ℝ)) :
    accumulate (ofCoords v) (terms.map fun term => (ofCoords term.1, term.2)) =
      ofCoords (v + (terms.map fun term => term.2 • term.1).sum) := by
  induction terms generalizing v with
  | nil => simp [accumulate]
  | cons term terms ih =>
      have hstep : Array.zipWith (fun c yi => c * term.2 + yi) (ofCoords term.1) (ofCoords v) =
          ofCoords (v + term.2 • term.1) := by
        rw [zipWith_ofCoords]
        congr 1
        funext i
        simp only [Pi.add_apply, Pi.smul_apply, smul_eq_mul]
        ring
      have hrest := ih (v + term.2 • term.1)
      rw [← hstep] at hrest
      simpa [accumulate, add_assoc] using hrest

theorem combination_ofMatrix (A : Matrix (Fin n) (Fin k) ℝ) (v : Fin k → ℝ) :
    (ofMatrix A).combination (ofCoords v) = ofCoords (A *ᵥ v) := by
  have hterms : (ofMatrix A).columns.toList.zip (ofCoords v).toList =
      ((List.finRange k).map fun j => ((fun i => A i j), v j)).map
        fun term => (ofCoords term.1, term.2) := by
    apply List.ext_getElem
    · simp [ofMatrix]
    · intro j h₁ h₂
      simp [ofMatrix, ofCoords]
  have hsum : A *ᵥ v =
      (((List.finRange k).map fun j => ((fun i => A i j), v j)).map
        fun term => term.2 • term.1).sum := by
    rw [List.map_map, ← List.ofFn_eq_map, List.sum_ofFn]
    funext i
    simp [mulVec, dotProduct, mul_comm]
  rw [hsum, combination, hterms]
  cases (List.finRange k).map fun j => ((fun i => A i j), v j) with
  | nil => simp [zeros_eq_ofCoords]
  | cons term terms =>
      have hhead : (ofCoords term.1).map (· * term.2) = ofCoords (term.2 • term.1) := by
        rw [map_ofCoords]
        congr 1
        funext i
        exact mul_comm _ _
      simp only [List.map_cons]
      rw [hhead, accumulate_ofCoords, List.sum_cons]

theorem apply_ofMatrix (A : Matrix (Fin n) (Fin k) ℝ) (v : Fin k → ℝ) :
    (ofMatrix A).apply (ofCoords v) = .ok (ofCoords (A *ᵥ v)) := by
  rw [apply, if_pos (by simp), combination_ofMatrix]

theorem applyTranspose_ofMatrix (A : Matrix (Fin n) (Fin k) ℝ) (v : Fin n → ℝ) :
    (ofMatrix A).applyTranspose (ofCoords v) = .ok (ofCoords (Aᵀ *ᵥ v)) := by
  rw [applyTranspose, if_pos (by simp)]
  congr 1
  apply Array.ext
  · simp [ofMatrix]
  · intro j h₁ h₂
    simp only [ofMatrix, Array.getElem_map, Array.getElem_ofFn, dot_ofCoords, getElem_ofCoords]
    rfl

theorem mul_ofMatrix (A : Matrix (Fin n) (Fin k) ℝ) (B : Matrix (Fin k) (Fin l) ℝ) :
    (ofMatrix A).mul (ofMatrix B) = .ok (ofMatrix (A * B)) := by
  rw [mul, if_pos (by simp)]
  congr 1
  refine ext_columns rfl ?_
  apply Array.ext
  · simp [ofMatrix]
  · intro j h₁ h₂
    simp only [ofMatrix, Array.getElem_map, Array.getElem_ofFn]
    exact combination_ofMatrix A _

theorem mulTranspose_ofMatrix (A : Matrix (Fin n) (Fin k) ℝ) (B : Matrix (Fin n) (Fin l) ℝ) :
    (ofMatrix A).mulTranspose (ofMatrix B) = .ok (ofMatrix (Aᵀ * B)) := by
  rw [mulTranspose, if_pos (by simp)]
  congr 1
  refine ext_columns (cols_ofMatrix A) ?_
  apply Array.ext
  · simp [ofMatrix]
  · intro j h₁ h₂
    simp only [ofMatrix, Array.getElem_map, Array.getElem_ofFn]
    apply Array.ext
    · simp
    · intro i h₃ h₄
      simp only [Array.getElem_map, Array.getElem_ofFn, dot_ofCoords, getElem_ofCoords]
      rfl

theorem between_ofMatrix (A : Matrix (Fin n) (Fin n) ℝ) (B : Matrix (Fin n) (Fin k) ℝ) :
    (do (ofMatrix B).mulTranspose (← (ofMatrix A).mul (ofMatrix B))) =
      .ok (ofMatrix (Bᵀ * (A * B))) := by
  rw [mul_ofMatrix]
  exact mulTranspose_ofMatrix B (A * B)

end Mat

end TimeStepping
