import Mathlib.Tactic.LinearCombination
import TimeStepping.Linear.Elimination
import TimeStepping.Proofs.Formulas

/-!
# Elimination solves

Over the real numbers, what elimination finds is a solution: `Mat.apply_of_solve`.
The unknowns that are left solve the equations the pivot was eliminated from, and the
first one is chosen so that the pivot holds; then so do the equations themselves.  And
where zero alone solves the homogeneous equations, no pivot is zero, so that a solution
is found: `Mat.exists_solve`.
-/

namespace TimeStepping

open Matrix List

namespace Equation

variable {n : Nat}

/-- The equation is about `n` unknowns. -/
def Over (n : Nat) (row : Equation ℝ) : Prop :=
  row.coefficients.length = n

def Holds (x : List ℝ) (row : Equation ℝ) : Prop :=
  mix row.coefficients x = row.rhs

/-! ## One unknown less -/

theorem Over.exists_cons {row : Equation ℝ} (h : row.Over (n + 1)) :
    ∃ tail, row.coefficients = row.lead :: tail ∧ tail.length = n := by
  obtain ⟨coefficients, rhs⟩ := row
  cases coefficients with
  | nil => cases h
  | cons first tail => exact ⟨tail, rfl, Nat.succ.inj h⟩

theorem Over.eliminate {pivot row : Equation ℝ} (hpivot : pivot.Over (n + 1))
    (hrow : row.Over (n + 1)) : (pivot.eliminate row).Over n := by
  obtain ⟨us, hus, hlength⟩ := hpivot.exists_cons
  obtain ⟨cs, hcs, hlength'⟩ := hrow.exists_cons
  simp [Over, Equation.eliminate, hus, hcs, hlength, hlength']

theorem mix_zipWith (m : ℝ) {us cs : List ℝ} (h : us.length = cs.length) (x : List ℝ) :
    mix (List.zipWith (fun u c => -u * m + c) us cs) x = mix cs x - m * mix us x := by
  induction us generalizing cs x with
  | nil =>
      obtain rfl := List.length_eq_zero_iff.1 h.symm
      simp
  | cons u us ih =>
      cases cs with
      | nil => cases h
      | cons c cs =>
          cases x with
          | nil => simp [mix]
          | cons value x =>
              rw [List.zipWith_cons_cons, mix_cons, mix_cons, mix_cons, ih (Nat.succ.inj h)]
              simp only [smul_eq_mul]
              ring

theorem foldr_sub (rhs : ℝ) (us x : List ℝ) :
    (List.zip us x).foldr (fun term b => -term.2 * term.1 + b) rhs = rhs - mix us x := by
  induction us generalizing x with
  | nil => simp
  | cons u us ih =>
      cases x with
      | nil => simp [mix]
      | cons value x =>
          rw [List.zip_cons_cons, List.foldr_cons, ih, mix_cons, smul_eq_mul]
          ring

/-- The first unknown is chosen so that the pivot holds. -/
theorem holds_resolve {pivot : Equation ℝ} (h : pivot.Over (n + 1)) (hlead : pivot.lead ≠ 0)
    (tail : List ℝ) : pivot.Holds (pivot.resolve tail :: tail) := by
  obtain ⟨us, hus, -⟩ := h.exists_cons
  rw [Holds, resolve, hus, List.tail_cons, foldr_sub, mix_cons, smul_eq_mul]
  field_simp
  ring

/-- With the pivot, an equation holds as soon as it does after the elimination. -/
theorem Holds.of_eliminate {pivot row : Equation ℝ} {value : ℝ} {tail : List ℝ}
    (hpivot : pivot.Over (n + 1)) (hrow : row.Over (n + 1)) (hlead : pivot.lead ≠ 0)
    (hholds : pivot.Holds (value :: tail)) (h : (pivot.eliminate row).Holds tail) :
    row.Holds (value :: tail) := by
  obtain ⟨us, hus, hlength⟩ := hpivot.exists_cons
  obtain ⟨cs, hcs, hlength'⟩ := hrow.exists_cons
  have hm : row.lead = row.lead * (1 / pivot.lead) * pivot.lead := by field_simp
  rw [Holds, hus, mix_cons, smul_eq_mul] at hholds
  rw [Holds, Equation.eliminate, hus, hcs, List.tail_cons, List.tail_cons,
    mix_zipWith _ (hlength.trans hlength'.symm)] at h
  rw [Holds, hcs, mix_cons, smul_eq_mul]
  linear_combination h + row.lead * (1 / pivot.lead) * hholds + value * hm

/-! ## The recursion -/

theorem exchange_perm (first : Equation ℝ) (rest : List (Equation ℝ)) (position : Nat) :
    ((exchange first rest position).1 :: (exchange first rest position).2).Perm
      (first :: rest) := by
  cases position with
  | zero => exact .refl _
  | succ position =>
      by_cases h : position < rest.length
      · simp only [exchange, List.getElem?_eq_getElem h, Option.getD_some]
        calc
          _ ~ rest[position] :: first :: rest.eraseIdx position :=
            .cons _ (List.set_perm_cons_eraseIdx h first)
          _ ~ first :: rest[position] :: rest.eraseIdx position := .swap ..
          _ ~ first :: rest := .cons _ (List.getElem_cons_eraseIdx_perm h)
      · have hlength : rest.length ≤ position := by omega
        simp only [exchange, List.getElem?_eq_none hlength, Option.getD_none,
          List.set_eq_of_length_le hlength]
        exact .refl _

/-- The equations that are left are over the unknowns that are left. -/
theorem Over.reduced {rows others : List (Equation ℝ)} {pivot : Equation ℝ}
    (hover : ∀ row ∈ rows, row.Over (n + 1)) (hperm : (pivot :: others).Perm rows) :
    ∀ row ∈ others.map pivot.eliminate, row.Over n := by
  intro row hrow
  obtain ⟨other, hother, rfl⟩ := List.mem_map.1 hrow
  have hpivot : pivot.Over (n + 1) := hover pivot (hperm.subset List.mem_cons_self)
  exact hpivot.eliminate (hover other (hperm.subset (List.mem_cons_of_mem _ hother)))

theorem length_reduced {rows others : List (Equation ℝ)} {pivot : Equation ℝ}
    (hlength : rows.length = n + 1) (hperm : (pivot :: others).Perm rows) :
    (others.map pivot.eliminate).length = n := by
  have hsame := hperm.length_eq
  simp only [List.length_cons, List.length_map] at hsame hlength ⊢
  omega

/-- The equations hold at what is found. -/
theorem holds_of_solve {rows : List (Equation ℝ)} {x : List ℝ} (hover : ∀ row ∈ rows, row.Over n)
    (hlength : rows.length = n) (h : solve n rows = some x) :
    x.length = n ∧ ∀ row ∈ rows, row.Holds x := by
  induction n generalizing rows x with
  | zero =>
      obtain rfl := List.length_eq_zero_iff.1 hlength
      cases h
      exact ⟨rfl, by simp⟩
  | succ n ih =>
      cases rows with
      | nil => cases h
      | cons first rest =>
          have hperm := exchange_perm first rest (pivotPosition first rest)
          rw [solve] at h
          generalize exchange first rest (pivotPosition first rest) = chosen at h hperm
          obtain ⟨pivot, others⟩ := chosen
          dsimp only at h hperm
          have hpivot : pivot.Over (n + 1) := hover pivot (hperm.subset List.mem_cons_self)
          have hothers : ∀ row ∈ others, row.Over (n + 1) := fun row hrow =>
            hover row (hperm.subset (List.mem_cons_of_mem _ hrow))
          by_cases hlead : pivot.lead = 0
          · simp [hlead] at h
          · have hreduced := Over.reduced hover hperm
            have hcount := length_reduced hlength hperm
            cases htail : solve n (others.map pivot.eliminate) with
            | none => simp [hlead, htail] at h
            | some tail =>
                obtain rfl : pivot.resolve tail :: tail = x := by
                  simpa [hlead, htail] using h
                obtain ⟨hsize, hholds⟩ := ih hreduced hcount htail
                have hfirst := holds_resolve hpivot hlead tail
                refine ⟨by rw [List.length_cons, hsize], fun row hrow => ?_⟩
                rcases List.mem_cons.1 (hperm.symm.subset hrow) with rfl | hother
                · exact hfirst
                · exact .of_eliminate hpivot (hothers row hother) hlead hfirst
                    (hholds _ (List.mem_map_of_mem hother))

/-! ## Systems with one solution -/

def homogeneous (row : Equation ℝ) : Equation ℝ :=
  ⟨row.coefficients, 0⟩

theorem homogeneous_eliminate (pivot row : Equation ℝ) :
    (pivot.eliminate row).homogeneous = pivot.homogeneous.eliminate row.homogeneous := by
  simp [homogeneous, Equation.eliminate, lead]

/-- Without their right-hand sides, the equations hold at zero only. -/
def Regular (n : Nat) (rows : List (Equation ℝ)) : Prop :=
  ∀ x : List ℝ, x.length = n → (∀ row ∈ rows, row.homogeneous.Holds x) → ∀ value ∈ x, value = 0

/-- The candidates seen so far have leads no larger than the best one. -/
theorem lead_le_foldl (first : Equation ℝ) (rest : List (Equation ℝ))
    (candidates : List (Equation ℝ × Nat))
    (hcandidates : ∀ candidate ∈ candidates, rest[candidate.2]? = some candidate.1)
    (best : ℝ × Nat) (hbest : |(exchange first rest best.2).1.lead| = best.1) :
    let last := candidates.foldl
      (fun best candidate =>
        let magnitude := Scalar.abs candidate.1.lead
        if best.1 < magnitude then (magnitude, candidate.2 + 1) else best) best
    |(exchange first rest last.2).1.lead| = last.1 ∧ best.1 ≤ last.1 ∧
      ∀ candidate ∈ candidates, |candidate.1.lead| ≤ last.1 := by
  induction candidates generalizing best with
  | nil => exact ⟨hbest, le_refl _, by simp⟩
  | cons candidate candidates ih =>
      have hcandidate := hcandidates candidate List.mem_cons_self
      have hrest := fun other hother => hcandidates other (List.mem_cons_of_mem _ hother)
      rw [List.foldl_cons]
      by_cases hlt : best.1 < |candidate.1.lead|
      · have hnext : |(exchange first rest (candidate.2 + 1)).1.lead| = |candidate.1.lead| := by
          simp [exchange, hcandidate]
        obtain ⟨hlast, hle, hall⟩ := ih hrest (|candidate.1.lead|, candidate.2 + 1) hnext
        simp only [Scalar.abs_real, hlt, if_true]
        exact ⟨hlast, hlt.le.trans hle, List.forall_mem_cons.2 ⟨hle, hall⟩⟩
      · obtain ⟨hlast, hle, hall⟩ := ih hrest best hbest
        simp only [Scalar.abs_real, hlt, if_false]
        exact ⟨hlast, hle, List.forall_mem_cons.2 ⟨(not_lt.1 hlt).trans hle, hall⟩⟩

/-- No lead is larger than that of the equation chosen for the elimination. -/
theorem lead_le_pivot (first : Equation ℝ) (rest : List (Equation ℝ)) :
    ∀ row ∈ first :: rest,
      |row.lead| ≤ |(exchange first rest (pivotPosition first rest)).1.lead| := by
  obtain ⟨hlast, hfirst, hrest⟩ := lead_le_foldl first rest rest.zipIdx
    (fun candidate h => List.mem_zipIdx_iff_getElem?.1 h) (|first.lead|, 0) rfl
  intro row hrow
  rw [pivotPosition]
  simp only [Scalar.abs_real] at hlast hfirst hrest ⊢
  rw [hlast]
  rcases List.mem_cons.1 hrow with rfl | hmem
  · exact hfirst
  · obtain ⟨position, hposition⟩ := List.mem_iff_getElem?.1 hmem
    exact hrest (row, position) (List.mem_zipIdx_iff_getElem?.2 hposition)

theorem Regular.exists_lead_ne_zero {rows : List (Equation ℝ)} (h : Regular (n + 1) rows)
    (hover : ∀ row ∈ rows, row.Over (n + 1)) : ∃ row ∈ rows, row.lead ≠ 0 := by
  by_contra hnone
  have hunit : ∀ row ∈ rows, row.homogeneous.Holds (1 :: List.replicate n 0) := by
    intro row hrow
    have hlead : row.lead = 0 := by
      by_contra hlead
      exact hnone ⟨row, hrow, hlead⟩
    obtain ⟨tail, htail, -⟩ := (hover row hrow).exists_cons
    rw [Holds, homogeneous, htail, hlead, mix_cons, mix_replicate_zero]
    simp
  have hone := h _ (by simp) hunit 1 List.mem_cons_self
  exact one_ne_zero hone

theorem Regular.eliminate {rows others : List (Equation ℝ)} {pivot : Equation ℝ}
    (h : Regular (n + 1) rows) (hover : ∀ row ∈ rows, row.Over (n + 1))
    (hperm : (pivot :: others).Perm rows) (hlead : pivot.lead ≠ 0) :
    Regular n (others.map pivot.eliminate) := by
  intro tail hlength hholds
  have hpivot : pivot.homogeneous.Over (n + 1) := hover pivot (hperm.subset List.mem_cons_self)
  have hfirst := holds_resolve hpivot hlead tail
  have hall : ∀ row ∈ rows,
      row.homogeneous.Holds (pivot.homogeneous.resolve tail :: tail) := by
    intro row hrow
    rcases List.mem_cons.1 (hperm.symm.subset hrow) with rfl | hother
    · exact hfirst
    · have hreduced := hholds _ (List.mem_map_of_mem hother)
      rw [homogeneous_eliminate] at hreduced
      exact .of_eliminate hpivot (hover row hrow) hlead hfirst hreduced
  intro value hvalue
  exact h _ (by simp [hlength]) hall value (List.mem_cons_of_mem _ hvalue)

/-- Elimination finds a solution of equations that have one only: the pivot, which has
the largest lead, is not zero. -/
theorem exists_solve {rows : List (Equation ℝ)} (hover : ∀ row ∈ rows, row.Over n)
    (hlength : rows.length = n) (hregular : Regular n rows) : ∃ x, solve n rows = some x := by
  induction n generalizing rows with
  | zero => exact ⟨[], rfl⟩
  | succ n ih =>
      cases rows with
      | nil => cases hlength
      | cons first rest =>
          have hperm := exchange_perm first rest (pivotPosition first rest)
          have hlargest := lead_le_pivot first rest
          rw [solve]
          generalize exchange first rest (pivotPosition first rest) = chosen at hperm hlargest ⊢
          obtain ⟨pivot, others⟩ := chosen
          dsimp only at hperm hlargest ⊢
          have hlead : pivot.lead ≠ 0 := by
            obtain ⟨row, hrow, hne⟩ := hregular.exists_lead_ne_zero hover
            exact abs_pos.1 ((abs_pos.2 hne).trans_le (hlargest row hrow))
          obtain ⟨tail, htail⟩ := ih (Over.reduced hover hperm) (length_reduced hlength hperm)
            (hregular.eliminate hover hperm hlead)
          exact ⟨pivot.resolve tail :: tail, by simp [hlead, htail]⟩

end Equation

namespace Mat

variable {n : Nat}

theorem toRows_ofMatrix (A : Matrix (Fin n) (Fin n) ℝ) :
    (ofMatrix A).toRows = List.ofFn fun i => List.ofFn (A i) := by
  apply List.ext_getElem
  · simp [toRows]
  · intro i h₁ h₂
    have hi : i < n := by simpa using h₂
    have hentry : (fun column : Vec ℝ => column[i]?) ∘ (fun j => Vec.ofCoords fun k => A k j) =
        fun j => some (A ⟨i, hi⟩ j) := by
      funext j
      simp [Vec.ofCoords, hi]
    simp only [toRows, List.getElem_map, List.getElem_range, List.getElem_ofFn, ofMatrix,
      Array.toList_ofFn]
    rw [List.ofFn_eq_map, List.filterMap_map, hentry, List.filterMap_eq_map', List.ofFn_eq_map]

theorem mix_ofFn (v w : Fin n → ℝ) : mix (List.ofFn v) (List.ofFn w) = v ⬝ᵥ w := by
  have hterms : List.zipWith (· • ·) (List.ofFn v) (List.ofFn w) =
      List.ofFn fun i => v i * w i := by
    apply List.ext_getElem <;> simp
  rw [mix, hterms, List.sum_ofFn]
  rfl

/-- The equations of a system, one for each row. -/
def equations (A : Matrix (Fin n) (Fin n) ℝ) (v : Fin n → ℝ) : List (Equation ℝ) :=
  List.ofFn fun i => ⟨List.ofFn (A i), v i⟩

theorem zipWith_toRows (A : Matrix (Fin n) (Fin n) ℝ) (v : Fin n → ℝ) :
    List.zipWith Equation.mk (ofMatrix A).toRows (Vec.ofCoords v).toList = equations A v := by
  rw [toRows_ofMatrix, Vec.ofCoords, Array.toList_ofFn, equations]
  apply List.ext_getElem <;> simp

theorem mulVec_of_solve {A : Matrix (Fin n) (Fin n) ℝ} {v : Fin n → ℝ} {x : List ℝ}
    (h : Equation.solve n (equations A v) = some x) :
    ∃ w, x.toArray = Vec.ofCoords w ∧ A *ᵥ w = v := by
  have hover : ∀ row ∈ equations A v, row.Over n := by simp [equations, Equation.Over]
  obtain ⟨hsize, hholds⟩ := Equation.holds_of_solve hover (by simp [equations]) h
  obtain ⟨w, hw⟩ := Vec.exists_ofCoords (x := x.toArray) hsize
  have hlist : x = List.ofFn w := by
    simpa [Vec.ofCoords] using congrArg Array.toList hw
  refine ⟨w, hw, ?_⟩
  funext i
  have hi := hholds ⟨List.ofFn (A i), v i⟩ (List.mem_ofFn.2 ⟨i, rfl⟩)
  rw [Equation.Holds, hlist, mix_ofFn] at hi
  exact hi

theorem regular_equations {A : Matrix (Fin n) (Fin n) ℝ} (hA : ∀ w, A *ᵥ w = 0 → w = 0)
    (v : Fin n → ℝ) : Equation.Regular n (equations A v) := by
  intro x hlength hholds
  obtain ⟨w, hw⟩ := Vec.exists_ofCoords (x := x.toArray) hlength
  have hlist : x = List.ofFn w := by
    simpa [Vec.ofCoords] using congrArg Array.toList hw
  have hzero : A *ᵥ w = 0 := by
    funext i
    have hi := hholds ⟨List.ofFn (A i), v i⟩ (List.mem_ofFn.2 ⟨i, rfl⟩)
    rw [Equation.Holds, Equation.homogeneous, hlist, mix_ofFn] at hi
    exact hi
  rw [hlist, hA w hzero]
  simp

/-- Elimination finds the solution wherever there is no more than one. -/
theorem exists_solve {A : Matrix (Fin n) (Fin n) ℝ} (hA : ∀ w, A *ᵥ w = 0 → w = 0) (hpos : 0 < n)
    (v : Fin n → ℝ) :
    ∃ w, (ofMatrix A).solve (.ofCoords v) = .ok (some (.ofCoords w)) ∧ A *ᵥ w = v := by
  have hover : ∀ row ∈ equations A v, row.Over n := by simp [equations, Equation.Over]
  obtain ⟨x, hx⟩ :=
    Equation.exists_solve hover (by simp [equations]) (regular_equations hA v)
  obtain ⟨w, hw, hsolution⟩ := mulVec_of_solve hx
  refine ⟨w, ?_, hsolution⟩
  rw [solve, if_pos (by simp; omega)]
  dsimp only
  rw [zipWith_toRows, rows_ofMatrix, hx, Option.map_some, hw]

/-- Elimination finds nothing but solutions. -/
theorem apply_of_solve {a : Mat ℝ} {b x : Vec ℝ} (h : a.solve b = .ok (some x)) :
    a.apply x = .ok b := by
  rw [solve] at h
  by_cases hshape : a.rows = b.size ∧ a.rows = a.cols ∧ a.rows ≠ 0
  · rw [if_pos hshape] at h
    obtain ⟨hrows, hcols, -⟩ := hshape
    obtain ⟨n, hn⟩ : ∃ n, a.rows = n := ⟨a.rows, rfl⟩
    obtain ⟨A, rfl⟩ := exists_ofMatrix hn (hcols.symm.trans hn)
    obtain ⟨v, rfl⟩ := Vec.exists_ofCoords (hrows.symm.trans hn)
    dsimp only at h
    rw [zipWith_toRows, rows_ofMatrix] at h
    obtain ⟨found, hfound, rfl⟩ : ∃ found, Equation.solve n (equations A v) = some found ∧
        found.toArray = x := by
      simpa using h
    obtain ⟨w, hw, hsolution⟩ := mulVec_of_solve hfound
    rw [hw, apply_ofMatrix, hsolution]
  · rw [if_neg hshape] at h
    cases h

end Mat

end TimeStepping
