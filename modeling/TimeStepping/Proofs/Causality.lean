import TimeStepping.Proofs.Exact
import TimeStepping.Proofs.Explicit.SideBySide
import TimeStepping.Models.Burgers

/-!
# Causality of upwind differences

The rate of change of a cell depends on the cell itself and on the one to its left, the
first on the inflow.  Nothing that differs between two states to the right of a cell gets
to it, however many steps are taken: `Burgers.upwind_causality`.
-/

namespace TimeStepping

variable {σ σ' α : Type}

/-! ## Agreement on the cells to the left -/

/-- The states have the same number of cells, and agree on those up to `m`. -/
def Vec.AgreeUpTo (m : Nat) (x y : Vec α) : Prop :=
  x.size = y.size ∧ ∀ i ≤ m, x[i]? = y[i]?

theorem Vec.AgreeUpTo.getD {m : Nat} {x y : Vec α} (h : x.AgreeUpTo m y) {i : Nat} (hi : i ≤ m)
    (a : α) : x.getD i a = y.getD i a := by
  rw [Array.getD_eq_getD_getElem?, Array.getD_eq_getD_getElem?, h.2 i hi]

theorem Vec.entrywise_agreeUpTo (m : Nat) : Entrywise (Vec.AgreeUpTo m : Vec α → Vec α → Prop) where
  map f x y h := by
    refine ⟨?_, fun i hi => ?_⟩
    · rw [Array.size_map, Array.size_map, h.1]
    · rw [Array.getElem?_map, Array.getElem?_map, h.2 i hi]
  combine f x x' y y' h h' := by
    unfold Vec.combine
    rw [h.1, h'.1]
    split
    · refine .ok ⟨?_, fun i hi => ?_⟩
      · rw [Array.size_zipWith, Array.size_zipWith, h.1, h'.1]
      · rw [Array.getElem?_zipWith, Array.getElem?_zipWith, h.2 i hi, h'.2 i hi]
    · exact .inr ⟨_, rfl, rfl⟩

theorem Mat.entry?_ofFn {rows cols i j : Nat} (hi : i < rows) (hj : j < cols)
    (f : Nat → Nat → α) : Mat.entry? (.ofFn rows cols f) i j = some (f i j) := by
  simp [Mat.ofFn, Mat.entry?, hi, hj]

namespace Burgers

variable [Scalar α] (model : Burgers α) {m : Nat} {u v : Vec α}

/-! ## Fluxes -/

theorem flux_eq_of_agree (h : u.AgreeUpTo m v) {i : Nat} (hi : i ≤ m) :
    model.flux u i = model.flux v i := by
  have hupwind : model.upwind u i = model.upwind v i := by
    cases i with
    | zero => rfl
    | succ i => exact h.getD (Nat.le_of_succ_le hi) 0
  rw [flux, flux, hupwind, h.getD hi]

theorem jacobianEntry_eq_zero (u : Vec α) {i j : Nat} (h : i < j ∨ j + 1 < i) :
    model.jacobianEntry u i j = 0 := by
  unfold jacobianEntry
  split
  · rfl
  · rw [if_neg (by omega), if_neg (by omega)]

variable [Exponential α]

theorem velocity_agrees (h : u.AgreeUpTo m v) {buffer buffer' : Vec α}
    (hbuffer : buffer.AgreeUpTo m buffer') :
    CheckedAlike (Vec.AgreeUpTo m) (model.velocity u buffer) (model.velocity v buffer') := by
  unfold velocity
  rw [h.1, hbuffer.1]
  split
  · exact .inr ⟨_, rfl, rfl⟩
  · refine .ok ⟨?_, fun i hi => ?_⟩
    · rw [Array.size_mapIdx, Array.size_mapIdx, hbuffer.1]
    · rw [Array.getElem?_mapIdx, Array.getElem?_mapIdx, hbuffer.2 i hi,
        model.flux_eq_of_agree h hi]

theorem velocityAlike (m : Nat) (E : σ → σ' → Prop) :
    (model.system : ContinuousSystem σ α).VelocityAlike (Vec.AgreeUpTo m) E
      (model.system : ContinuousSystem σ' α) := by
  constructor
  intro state state' buffer buffer' hstate hbuffer time
  refine .pure fun env env' henv => ?_
  obtain ⟨f, f', hf, hf', hagree⟩ | ⟨cause, hf, hf'⟩ := model.velocity_agrees hstate hbuffer
  · rw [hf, hf']
    exact ⟨rfl, hagree, henv⟩
  · rw [hf, hf']
    exact ⟨rfl, hbuffer, henv⟩

/-- Upwind differences are causal.  If two states agree on the cells up to `m`, then runs of
an explicit scheme from them take the same steps, and all their states agree on these
cells.  In the Jacobian, only the diagonal and the entries just below it are not zero. -/
theorem upwind_causality [Journal α σ] [Journal α σ'] (m : Nat) (stepper : ExplicitStepper α) :
    (∀ {initial initial' : Vec α}, initial.AgreeUpTo m initial' →
      ∀ {E : σ → σ' → Prop}, Run.NotesAlike α E → ∀ env env', E env env' →
        Run.RunsInLockstep (Vec.AgreeUpTo m) E
          (ExplicitStepper.steppable model.system stepper.scheme)
          (ExplicitStepper.steppable model.system stepper.scheme) initial initial' (stepper, env)
          (stepper, env')) ∧
    ∀ (u : Vec α) (time : α) (buffer : Mat α) (env : σ), 0 < u.size → u.size ≤ buffer.rows →
      u.size ≤ buffer.cols → ∃ J, model.system.jacobian u time buffer env = (.done J, env) ∧
        J.rows = buffer.rows ∧ J.cols = buffer.cols ∧
          ∀ i < J.rows, ∀ j < J.cols, i < j ∨ j + 1 < i → Mat.entry? J i j = some 0 := by
  constructor
  · intro initial initial' hinitial E hnotes env env' henv
    have hsame (slopes : List (Vec α)) : List.Forall₂ (Vec.AgreeUpTo m) slopes slopes :=
      List.forall₂_same.2 fun slope _ => ⟨rfl, fun _ _ => rfl⟩
    exact ExplicitStepper.runsInLockstep (Vec.entrywise_agreeUpTo m) (model.velocityAlike m E)
      hnotes stepper.scheme hinitial rfl (hsame _) henv
  · intro u time buffer env hpos hrows hcols
    have hcolumns : (Mat.ofFn buffer.rows buffer.cols (model.jacobianEntry u)).cols = buffer.cols :=
      Array.size_ofFn
    refine ⟨.ofFn buffer.rows buffer.cols (model.jacobianEntry u), ?_, rfl, hcolumns, ?_⟩
    · change (Outcome.ofChecked buffer (model.jacobian u buffer), env) = _
      rw [model.jacobian_of_fits hpos hrows hcols]
      rfl
    · intro i hi j hj hoff
      have hentry : Mat.entry? (.ofFn buffer.rows buffer.cols (model.jacobianEntry u)) i j =
          some (model.jacobianEntry u i j) := Mat.entry?_ofFn hi (hcolumns ▸ hj) _
      rw [hentry, model.jacobianEntry_eq_zero u hoff]

/-- Two cells, of which the second differs.  One of the runs is also recorded. -/
theorem upwind_causality_two_cells :
    let _ : Exponential ℝ := ⟨id⟩
    let silent : Run.Observer Unit ℝ := fun _ _ _ => pure ()
    let recording : Run.Observer (List (Vec ℝ) × Unit) ℝ :=
      fun _ _ live env => ((), env.1 ++ [live], env.2)
    ∃ model : Burgers ℝ, ofCells ⟨5, 1, 1⟩ 2 = .ok model ∧
      let run := Run.steps (ExplicitStepper.steppable model.system .rungeKutta4) (silent.beside _)
        0 1 3 #[1, 2] (.fresh .rungeKutta4 (model.system : ContinuousSystem Unit ℝ), ())
      let run' := Run.steps (ExplicitStepper.steppable model.system .rungeKutta4)
        (recording.beside _) 0 1 3 #[1, 3]
        (.fresh .rungeKutta4 (model.system : ContinuousSystem Unit ℝ), [], ())
      run.1.ending = run'.1.ending ∧ run.1.live[0]? = run'.1.live[0]? := by
  intro _ silent recording
  obtain ⟨model, hmodel⟩ : ∃ model : Burgers ℝ, ofCells ⟨5, 1, 1⟩ 2 = .ok model :=
    ⟨_, if_neg two_ne_zero⟩
  refine ⟨model, hmodel, ?_⟩
  intro run run'
  have hinitial : Vec.AgreeUpTo 0 (#[1, 2] : Vec ℝ) #[1, 3] := by
    refine ⟨rfl, fun i hi => ?_⟩
    rw [Nat.le_zero.1 hi]
    rfl
  -- the callbacks ask nothing of the environments
  let E : Unit → List (Vec ℝ) × Unit → Prop := fun _ _ => True
  have hobservers : silent.Alike (Vec.AgreeUpTo 0) E recording :=
    fun _ _ _ _ _ => ⟨fun _ _ _ => trivial⟩
  have hnotes : Run.NotesAlike ℝ E := fun _ _ _ _ => trivial
  let stepper : ExplicitStepper ℝ :=
    .fresh .rungeKutta4 (model.system : ContinuousSystem Unit ℝ)
  have hruns := (model.upwind_causality 0 stepper).1 hinitial hnotes () ([], ()) trivial
  have hsteps := hruns.steps hobservers 0 1 3
  exact ⟨hsteps.ending, hsteps.live.2 0 le_rfl⟩

end Burgers

end TimeStepping
