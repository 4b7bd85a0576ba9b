import TimeStepping.Proofs.Iterates
import TimeStepping.Proofs.Iteration

/-!
# The iteration limit

A solve runs out of iterations exactly when as many iterates as there are iterations
each lead on to the next: none of them meets a tolerance.  The iterate it leaves in the
state comes after these and is not tested; one more iteration would have tested it.  Main
statement: `Newton.limit_leaves_last_untested`.
-/

namespace TimeStepping

variable {σ α : Type}

/-- A residual and a Jacobian for as many unknowns. -/
structure Fits (n : Nat) (residual : Vec α) (jacobian : Mat α) : Prop where
  size : residual.size = n
  rows : jacobian.rows = n
  cols : jacobian.cols = n

/-- On the states of size `n` the evaluations succeed and are functions of the state. -/
structure AlgebraicSystem.Evaluates (system : AlgebraicSystem σ α) (n : Nat)
    (F : Vec α → Vec α) (J : Vec α → Mat α) : Prop where
  buffers : Fits n system.residualBuffer system.jacobianBuffer
  values {x : Vec α} (hx : x.size = n) : Fits n (F x) (J x)
  residual {x r : Vec α} {j : Mat α} (hx : x.size = n) (hfits : Fits n r j) (env : σ) :
    (system.residual x r env).1 = .done (F x)
  jacobian {x r : Vec α} {j : Mat α} (hx : x.size = n) (hfits : Fits n r j) (env : σ) :
    (system.jacobian x j env).1 = .done (J x)

namespace Newton

variable [Scalar α]

def Settings.withLimit (settings : Settings α) (limit : Nat) : Settings α :=
  { settings with maxIterations := limit }

/-- The iterate `x`, reached by so many corrections, meets no tolerance and leads on to
`next`.  The relative tolerance refers to the norm `reference`. -/
structure GoesOn (settings : Settings α) (linear : LinearSolver α) (F : Vec α → Vec α)
    (J : Vec α → Mat α) (reference : α) (made : Nat) (x next : Vec α) : Prop where
  finite : Scalar.isFinite (Vec.norm (F x)) = true
  unmet : settings.residualMet made reference (Vec.norm (F x)) = false
  corrected : ∃ delta, linear (J x) (Vec.negate (F x)) = .ok (some delta) ∧
    Vec.add x delta = .ok next ∧ Scalar.isFinite (Vec.norm delta) = true ∧
    settings.correctionMet (Vec.norm delta) (Vec.norm next) = false

theorem GoesOn.size_next {settings : Settings α} {linear : LinearSolver α} {F : Vec α → Vec α}
    {J : Vec α → Mat α} {reference : α} {made : Nat} {x next : Vec α}
    (h : GoesOn settings linear F J reference made x next) : next.size = x.size := by
  obtain ⟨delta, -, hadd, -⟩ := h.corrected
  exact Vec.size_of_combine hadd

variable [Journal α σ] {settings : Settings α} {linear : LinearSolver α}
  {system : AlgebraicSystem σ α} {n : Nat} {F : Vec α → Vec α} {J : Vec α → Mat α}
  {state residual : Vec α} {jacobian : Mat α} {initial : α} {iteration : Nat} {env : σ}

theorem iterate_of_goesOn (hsystem : system.Evaluates n F J) (hstate : state.size = n)
    (hfits : Fits n residual jacobian) {next : Vec α}
    (h : GoesOn settings linear F J (if iteration = 0 then Vec.norm (F state) else initial)
      iteration state next) (remaining : Nat) (env : σ) :
    ∃ after, iterate settings linear system (remaining + 1) iteration initial state residual
        jacobian env =
      iterate settings linear system remaining (iteration + 1)
        (if iteration = 0 then Vec.norm (F state) else initial) next (F state) (J state)
        after := by
  obtain ⟨after, hafter⟩ := iterate_of_unmet remaining (hsystem.residual hstate hfits env)
    h.finite h.unmet (hsystem.jacobian hstate hfits)
  refine ⟨after, ?_⟩
  rw [hafter, afterCorrection, correct_eq_inr_iff.2 h.corrected]

variable (initial) in
/-- Along iterates that lead on, so many iterations are used up. -/
theorem iterate_along (hsystem : system.Evaluates n F J) {count : Nat} {x : Nat → Vec α}
    (hstate : (x 0).size = n) (hfits : Fits n residual jacobian) {reference : α}
    (hreference : (if iteration = 0 then Vec.norm (F (x 0)) else initial) = reference)
    (h : ∀ k < count, GoesOn settings linear F J reference (iteration + k) (x k) (x (k + 1)))
    (extra : Nat) (env : σ) :
    ∃ initial' residual' jacobian' after,
      iterate settings linear system (count + extra) iteration initial (x 0) residual jacobian
          env =
        iterate settings linear system extra (iteration + count) initial' (x count) residual'
          jacobian' after ∧
      (x count).size = n ∧ Fits n residual' jacobian' ∧
      (if iteration + count = 0 then Vec.norm (F (x count)) else initial') = reference := by
  induction count generalizing x iteration initial residual jacobian env with
  | zero =>
      rw [Nat.zero_add]
      exact ⟨initial, residual, jacobian, env, rfl, hstate, hfits, hreference⟩
  | succ count ih =>
      have hfirst := h 0 (Nat.succ_pos count)
      rw [Nat.add_zero, ← hreference] at hfirst
      obtain ⟨after, hafter⟩ :=
        iterate_of_goesOn hsystem hstate hfits hfirst (count + extra) env
      have hrest : ∀ k < count, GoesOn settings linear F J reference (iteration + 1 + k)
          (x (k + 1)) (x (k + 1 + 1)) := by
        intro k hk
        have hnext := h (k + 1) (by omega)
        rwa [show iteration + (k + 1) = iteration + 1 + k by omega] at hnext
      obtain ⟨initial', residual', jacobian', last, heq, hlast⟩ :=
        ih (x := fun k => x (k + 1)) reference (hfirst.size_next.trans hstate)
          (hsystem.values hstate) (if_neg (by omega)) hrest after
      have hcount : iteration + 1 + count = iteration + (count + 1) := by omega
      rw [hcount] at heq hlast
      refine ⟨initial', residual', jacobian', last, ?_, hlast⟩
      rw [show count + 1 + extra = count + extra + 1 by omega, hafter, hreference, heq]

/-- An iterate that is not the last before a solve runs out of iterations leads on. -/
theorem exists_goesOn (hsystem : system.Evaluates n F J) (hstate : state.size = n)
    (hfits : Fits n residual jacobian) {remaining made limit : Nat}
    (h : (iterate settings linear system (remaining + 1) iteration initial state residual jacobian
      env).1.ending = .failed (.unsolved made (.iterationLimit limit))) :
    ∃ next, GoesOn settings linear F J (if iteration = 0 then Vec.norm (F state) else initial)
      iteration state next := by
  have hresidual := hsystem.residual hstate hfits env
  cases hfinite : Scalar.isFinite (Vec.norm (F state)) with
  | false =>
      rw [iterate_of_not_finite remaining hresidual hfinite] at h
      cases h
  | true =>
      cases hmet : settings.residualMet iteration
          (if iteration = 0 then Vec.norm (F state) else initial) (Vec.norm (F state)) with
      | true =>
          rw [iterate_of_met remaining hresidual hfinite hmet] at h
          cases h
      | false =>
          obtain ⟨after, hafter⟩ := iterate_of_unmet remaining hresidual hfinite hmet
            (hsystem.jacobian hstate hfits)
          rw [hafter, afterCorrection] at h
          cases hcorrect : correct settings linear iteration state (F state) (J state) with
          | inl report =>
              rw [hcorrect] at h
              change report.ending = _ at h
              rcases ending_of_correct hcorrect with ⟨hdone, -⟩ | ⟨cause, hfault⟩ | hfailed |
                hfailed
              · cases h.symm.trans hdone
              · cases h.symm.trans hfault
              · cases h.symm.trans hfailed
              · cases h.symm.trans hfailed
          | inr next => exact ⟨next, hfinite, hmet, correct_eq_inr_iff.1 hcorrect⟩

theorem exists_iterates (hsystem : system.Evaluates n F J) {remaining : Nat}
    (hstate : state.size = n) (hfits : Fits n residual jacobian) {reference : α}
    (hreference : (if iteration = 0 then Vec.norm (F state) else initial) = reference)
    {made limit : Nat}
    (h : (iterate settings linear system remaining iteration initial state residual jacobian
      env).1.ending = .failed (.unsolved made (.iterationLimit limit))) :
    ∃ x : Nat → Vec α, x 0 = state ∧
      ∀ k < remaining, GoesOn settings linear F J reference (iteration + k) (x k) (x (k + 1)) := by
  induction remaining generalizing iteration initial state residual jacobian env with
  | zero => exact ⟨fun _ => state, rfl, by simp⟩
  | succ remaining ih =>
      obtain ⟨next, hnext⟩ := exists_goesOn hsystem hstate hfits h
      obtain ⟨after, hafter⟩ := iterate_of_goesOn hsystem hstate hfits hnext remaining env
      rw [hafter] at h
      rw [hreference] at h hnext
      obtain ⟨x, hx, hrest⟩ := ih (hnext.size_next.trans hstate) (hsystem.values hstate)
        (if_neg (by omega)) h
      refine ⟨fun k => Nat.casesOn k state x, rfl, fun k hk => ?_⟩
      cases k with
      | zero =>
          change GoesOn settings linear F J reference iteration state (x 0)
          rwa [hx]
      | succ k =>
          have hlater := hrest k (by omega)
          rwa [show iteration + 1 + k = iteration + (k + 1) by omega] at hlater

/-- With one iteration left, a solve returns the iterate it is at exactly when that meets a
residual tolerance. -/
theorem iterate_one_eq_iff (hsystem : system.Evaluates n F J) (hstate : state.size = n)
    (hfits : Fits n residual jacobian) :
    (iterate settings linear system 1 iteration initial state residual jacobian env).1 =
        ⟨state, iteration, .done⟩ ↔
      Scalar.isFinite (Vec.norm (F state)) = true ∧
        settings.residualMet iteration (if iteration = 0 then Vec.norm (F state) else initial)
          (Vec.norm (F state)) = true := by
  have hresidual := hsystem.residual hstate hfits env
  constructor
  · intro h
    cases hfinite : Scalar.isFinite (Vec.norm (F state)) with
    | false =>
        rw [iterate_of_not_finite 0 hresidual hfinite] at h
        cases h
    | true =>
        refine ⟨rfl, ?_⟩
        by_contra hunmet
        rw [Bool.not_eq_true] at hunmet
        obtain ⟨after, hafter⟩ := iterate_of_unmet 0 hresidual hfinite hunmet
          (hsystem.jacobian hstate hfits)
        rw [hafter, afterCorrection] at h
        cases hcorrect : correct settings linear iteration state (F state) (J state) with
        | inl report =>
            rw [hcorrect] at h
            obtain rfl : report = ⟨state, iteration, .done⟩ := h
            rcases ending_of_correct hcorrect with ⟨-, hcount⟩ | ⟨cause, hfault⟩ | hfailed |
              hfailed
            · simp at hcount
            · cases hfault
            · cases hfailed
            · cases hfailed
        | inr next =>
            rw [hcorrect] at h
            cases h
  · rintro ⟨hfinite, hmet⟩
    exact iterate_of_met 0 hresidual hfinite hmet

theorem fails_of_goesOn (hsystem : system.Evaluates n F J) {x : Nat → Vec α}
    (hstart : (x 0).size = n)
    (h : ∀ k < settings.maxIterations,
      GoesOn settings linear F J (Vec.norm (F (x 0))) k (x k) (x (k + 1))) (env : σ) :
    (run settings linear system (x 0) env).1 =
      .diverged (x settings.maxIterations) settings.maxIterations
        (.iterationLimit settings.maxIterations) := by
  have hgoes : ∀ k < settings.maxIterations,
      GoesOn settings linear F J (Vec.norm (F (x 0))) (0 + k) (x k) (x (k + 1)) := by
    simpa only [Nat.zero_add] using h
  obtain ⟨_, _, _, _, hreport, -⟩ :=
    iterate_along 0 hsystem hstart hsystem.buffers (if_pos rfl) hgoes 0 env
  rw [Nat.zero_add] at hreport
  exact congrArg Prod.fst hreport

/-- The iterate that running out of iterations leaves is the next to be tested. -/
theorem longer_eq_iff (hsystem : system.Evaluates n F J) {x : Nat → Vec α}
    (hstart : (x 0).size = n)
    (h : ∀ k < settings.maxIterations,
      GoesOn settings linear F J (Vec.norm (F (x 0))) k (x k) (x (k + 1))) (env : σ) :
    let limit := settings.maxIterations
    (run (settings.withLimit (limit + 1)) linear system (x 0) env).1 = ⟨x limit, limit, .done⟩ ↔
      Scalar.isFinite (Vec.norm (F (x limit))) = true ∧
        settings.residualMet limit (Vec.norm (F (x 0))) (Vec.norm (F (x limit))) = true := by
  intro limit
  -- The limit takes no part in the tests.
  have hgoes : ∀ k < limit, GoesOn (settings.withLimit (limit + 1)) linear F J
      (Vec.norm (F (x 0))) (0 + k) (x k) (x (k + 1)) := by
    intro k hk
    obtain ⟨hfinite, hunmet, hcorrected⟩ := h k hk
    rw [Nat.zero_add]
    exact ⟨hfinite, hunmet, hcorrected⟩
  obtain ⟨initial, residual, jacobian, after, hlonger, hsize, hfits, hreference⟩ :=
    iterate_along 0 hsystem hstart hsystem.buffers (if_pos rfl) hgoes 1 env
  rw [Nat.zero_add] at hlonger hreference
  rw [run, show (settings.withLimit (limit + 1)).maxIterations = limit + 1 from rfl, hlonger,
    iterate_one_eq_iff hsystem hsize hfits, hreference]
  rfl

/-- What running out of iterations means.  A solve fails so exactly when as many iterates as
it may make iterations each lead on to the next, the one left in the state being what the
last of them leads to.  None of them meets a tolerance, but the one left in the state was
not tested: with one more iteration it would have been returned, as converged, exactly when
it meets a residual tolerance. -/
theorem limit_leaves_last_untested (settings : Settings α) (linear : LinearSolver α)
    (hsystem : system.Evaluates n F J) {start : Vec α} (hstart : start.size = n) (env : σ) :
    let limit := settings.maxIterations
    let report := (run settings linear system start env).1
    let longer := (run (settings.withLimit (limit + 1)) linear system start env).1
    ∀ made reported, report.ending = .failed (.unsolved made (.iterationLimit reported)) ↔
      made = limit ∧ reported = limit ∧ ∃ x : Nat → Vec α, x 0 = start ∧
        (∀ k < limit,
          GoesOn settings linear F J (Vec.norm (F start)) k (x k) (x (k + 1))) ∧
        report.state = x limit ∧ report.iterations = limit ∧
        (longer = ⟨x limit, limit, .done⟩ ↔
          Scalar.isFinite (Vec.norm (F (x limit))) = true ∧
            settings.residualMet limit (Vec.norm (F start)) (Vec.norm (F (x limit))) = true) := by
  intro limit report longer made reported
  constructor
  · intro h
    obtain ⟨x, rfl, hiterates⟩ :=
      exists_iterates hsystem hstart hsystem.buffers (if_pos rfl) h
    have hgoes : ∀ k < limit,
        GoesOn settings linear F J (Vec.norm (F (x 0))) k (x k) (x (k + 1)) := by
      simpa only [Nat.zero_add] using hiterates
    have hreport := fails_of_goesOn hsystem hstart hgoes env
    rw [show report = _ from hreport] at h ⊢
    cases h
    exact ⟨rfl, rfl, x, rfl, hgoes, rfl, rfl, longer_eq_iff hsystem hstart hgoes env⟩
  · rintro ⟨rfl, rfl, x, rfl, hgoes, -⟩
    rw [show report = _ from fails_of_goesOn hsystem hstart hgoes env]
    rfl

theorem evaluates_shifted :
    shifted.Evaluates 1 (fun x => x.map fun a => a - 3)
      fun _ => .ofMatrix (1 : Matrix (Fin 1) (Fin 1) ℝ) where
  buffers := ⟨rfl, rfl, rfl⟩
  values hx := ⟨by simpa using hx, rfl, rfl⟩
  residual _ _ _ := rfl
  jacobian _ _ _ := rfl

/-- One iteration leads to the root, and is all there may be. -/
theorem run_shifted_once :
    (run (Settings.standard.withLimit 1) Mat.solve shifted (.ofCoords ![0]) (0, ())).1 =
      .diverged (.ofCoords ![3]) 1 (.iterationLimit 1) := by
  let settings : Settings ℝ := Settings.standard.withLimit 1
  let x (k : Nat) : Vec ℝ := if k = 0 then .ofCoords ![0] else .ofCoords ![3]
  have hvalue : (x 0).map (fun a => a - 3) = Vec.ofCoords ![0 - 3] :=
    (Vec.map_ofCoords _ _).trans (Vec.ofCoords_ext_single rfl)
  have hgoes : ∀ k < settings.maxIterations,
      GoesOn settings Mat.solve (fun x => x.map fun a => a - 3)
        (fun _ => .ofMatrix (1 : Matrix (Fin 1) (Fin 1) ℝ))
        (Vec.norm ((x 0).map fun a => a - 3)) k (x k) (x (k + 1)) := by
    intro k hk
    obtain rfl : k = 0 := Nat.lt_one_iff.1 hk
    constructor
    case finite => rfl
    case unmet =>
      rw [hvalue, norm_single]
      norm_num [Settings.residualMet, settings, Settings.withLimit, Settings.standard,
        Settings.withTolerance]
    case corrected =>
      rw [hvalue]
      exact correct_eq_inr_iff.1 correct_shifted
  exact fails_of_goesOn evaluates_shifted (Vec.size_ofCoords _) hgoes (0, ())

theorem norm_residual_root : Vec.norm ((Vec.ofCoords ![(3 : ℝ)]).map fun a => a - 3) = 0 := by
  have hvalue : (Vec.ofCoords ![(3 : ℝ)]).map (fun a => a - 3) = Vec.ofCoords ![3 - 3] :=
    (Vec.map_ofCoords _ _).trans (Vec.ofCoords_ext_single rfl)
  rw [hvalue, norm_single, sub_self, abs_zero]

/-- The iterate that a limit of one leaves is returned under a limit of two. -/
theorem limit_leaves_last_untested_shifted :
    shifted.Evaluates 1 (fun x => x.map fun a => a - 3)
        (fun _ => .ofMatrix (1 : Matrix (Fin 1) (Fin 1) ℝ)) ∧
      (Vec.ofCoords ![(0 : ℝ)]).size = 1 ∧
      (run (Settings.standard.withLimit 1) Mat.solve shifted (.ofCoords ![0]) (0, ())).1.ending =
        .failed (.unsolved 1 (.iterationLimit 1)) ∧
      (run (Settings.standard.withLimit 2) Mat.solve shifted (.ofCoords ![0]) (0, ())).1 =
        ⟨.ofCoords ![3], 1, .done⟩ := by
  have hsize : (Vec.ofCoords ![(0 : ℝ)]).size = 1 := Vec.size_ofCoords _
  have hfails := congrArg Report.ending run_shifted_once
  obtain ⟨-, -, x, -, -, hstate, -, hlonger⟩ :=
    (limit_leaves_last_untested (Settings.standard.withLimit 1) Mat.solve evaluates_shifted hsize
      (0, ()) 1 1).1 hfails
  rw [run_shifted_once] at hstate
  have hlast : x (Settings.standard.withLimit 1 : Settings ℝ).maxIterations = .ofCoords ![3] :=
    hstate.symm
  rw [hlast, norm_residual_root] at hlonger
  refine ⟨evaluates_shifted, hsize, hfails, hlonger.2 ⟨rfl, ?_⟩⟩
  norm_num [Settings.residualMet, Settings.withLimit, Settings.standard, Settings.withTolerance]

/-- A solve may run out of iterations at a root. -/
theorem limit_misses_root :
    let settings : Settings ℝ := Settings.standard.withLimit 1
    let root : Vec ℝ := .ofCoords ![3]
    settings.validate = .ok () ∧
      (run settings Mat.solve shifted (.ofCoords ![0]) (0, ())).1 =
        .diverged root 1 (.iterationLimit 1) ∧
      ∃ residual, (shifted.residual root shifted.residualBuffer (0, ())).1 = .done residual ∧
        Vec.norm residual ≤ settings.residualAbs := by
  intro settings root
  refine ⟨?_, run_shifted_once, _, rfl, ?_⟩
  · norm_num [Settings.validate, Settings.tolerances, settings, Settings.withLimit,
      Settings.standard, Settings.withTolerance]
  · rw [norm_residual_root]
    norm_num [settings, Settings.withLimit, Settings.standard, Settings.withTolerance]

end Newton

end TimeStepping
