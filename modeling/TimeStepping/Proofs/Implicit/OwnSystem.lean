import TimeStepping.Proofs.Formulas
import TimeStepping.Proofs.Implicit.Memory

/-!
# The own system of a stepper

A stepper answers for the residual and the Jacobian of its last step.  They depend on
its stencil and on the point of the step.  An attempt that is not completed gives back
the stencil but not the point, so that the stepper then answers for the states from
before the attempt at the point of the attempt: neither for the step it completed last
nor for the one it attempted.  After a completed step it answers with its own formula,
also where the step was handed to an auxiliary stepper, which solved another one.  Main
statements: `Chain.own_system_after_attempt`, `Chain.own_system_after_completed_step`.
-/

namespace TimeStepping

/-! ## Residuals and Jacobians that agree -/

namespace BdfTable

variable {size size' : Nat} {table table' : BdfTable ℝ}

theorem beta_pos (h : ofSize? size = some table) : 0 < table.beta := by
  unfold ofSize? at h
  split at h <;> cases h <;> norm_num

/-- No two of the formulas give the velocity the same weight. -/
theorem beta_eq_iff (h : ofSize? size = some table) (h' : ofSize? size' = some table') :
    table.beta = table'.beta ↔ size = size' := by
  unfold ofSize? at h h'
  split at h <;> split at h' <;> cases h <;> cases h' <;> norm_num

end BdfTable

namespace StepEquation

variable {σ : Type} {n : Nat} {system : ContinuousSystem σ ℝ} {stencil stencil' : Stencil ℝ}
  {table table' : BdfTable ℝ} {point first second : StepPoint ℝ} {trial buffer : Vec ℝ}
  {square : Mat ℝ} {env env' : σ}

/-- Two formulas have the same residual where what they take from the trial state is the
same. -/
theorem residuals_eq_iff (htable : BdfTable.ofSize? stencil.size = some table)
    (htable' : BdfTable.ofSize? stencil'.size = some table') {x f f' : Fin n → ℝ}
    {ys ys' : List (Fin n → ℝ)} (hslots : stencil.slots = ys.map Vec.ofCoords)
    (hslots' : stencil'.slots = ys'.map Vec.ofCoords)
    (hf : (system.velocity (.ofCoords x) first.time buffer env).1 = .done (.ofCoords f))
    (hf' : (system.velocity (.ofCoords x) second.time buffer env').1 = .done (.ofCoords f')) :
    ((bdf system).residual first stencil (.ofCoords x) buffer env).1 =
        ((bdf system).residual second stencil' (.ofCoords x) buffer env').1 ↔
      mix table.alpha ys + (table.beta * first.dt) • f =
        mix table'.alpha ys' + (table'.beta * second.dt) • f' := by
  rw [residual_of_velocity htable hf, residual_of_velocity htable' hf', hslots, hslots',
    BdfTable.residual_ofCoords, BdfTable.residual_ofCoords]
  simp only [Outcome.ofChecked, Outcome.mk.injEq, and_true, Vec.ofCoords_injective.eq_iff,
    sub_sub, sub_right_inj]

/-- Over the same states, the residuals of two points agree where velocity and time step
have the same product. -/
theorem residual_eq_iff (htable : BdfTable.ofSize? stencil.size = some table) {x f f' : Fin n → ℝ}
    {ys : List (Fin n → ℝ)} (hslots : stencil.slots = ys.map Vec.ofCoords)
    (hf : (system.velocity (.ofCoords x) first.time buffer env).1 = .done (.ofCoords f))
    (hf' : (system.velocity (.ofCoords x) second.time buffer env').1 = .done (.ofCoords f')) :
    ((bdf system).residual first stencil (.ofCoords x) buffer env).1 =
        ((bdf system).residual second stencil (.ofCoords x) buffer env').1 ↔
      first.dt • f = second.dt • f' := by
  rw [residuals_eq_iff htable htable hslots hslots hf hf', add_right_inj, mul_smul, mul_smul]
  exact (smul_right_injective _ (BdfTable.beta_pos htable).ne').eq_iff

/-- And so do the Jacobians where Jacobian and time step have. -/
theorem jacobian_eq_iff (htable : BdfTable.ofSize? stencil.size = some table)
    {J J' : Matrix (Fin n) (Fin n) ℝ}
    (hJ : (system.jacobian trial first.time square env).1 = .done (.ofMatrix J))
    (hJ' : (system.jacobian trial second.time square env').1 = .done (.ofMatrix J')) :
    ((bdf system).jacobian first stencil trial square env).1 =
        ((bdf system).jacobian second stencil trial square env').1 ↔
      first.dt • J = second.dt • J' := by
  rw [jacobian_of_evaluated htable hJ, jacobian_of_evaluated htable hJ',
    BdfTable.jacobian_ofMatrix, BdfTable.jacobian_ofMatrix]
  simp only [Outcome.done, Outcome.mk.injEq, and_true, Mat.ofMatrix_injective.eq_iff,
    sub_right_inj, mul_smul]
  exact (smul_right_injective _ (BdfTable.beta_pos htable).ne').eq_iff

/-- At one point, the Jacobians of formulas over different numbers of states differ,
unless there is nothing for them to weigh. -/
theorem jacobian_eq_iff_size_eq (hsize : stencil.size ≤ 3) (hsize' : stencil'.size ≤ 3)
    {J : Matrix (Fin n) (Fin n) ℝ}
    (hJ : (system.jacobian trial point.time square env).1 = .done (.ofMatrix J)) :
    ((bdf system).jacobian point stencil trial square env).1 =
        ((bdf system).jacobian point stencil' trial square env).1 ↔
      stencil.size = stencil'.size ∨ point.dt • J = 0 := by
  have hpos (s : Stencil ℝ) : 0 < s.size := Nat.succ_pos s.older.length
  obtain ⟨table, htable⟩ := BdfTable.exists_ofSize? (α := ℝ) (hpos stencil) hsize
  obtain ⟨table', htable'⟩ := BdfTable.exists_ofSize? (α := ℝ) (hpos stencil') hsize'
  rw [jacobian_of_evaluated htable hJ, jacobian_of_evaluated htable' hJ,
    BdfTable.jacobian_ofMatrix, BdfTable.jacobian_ofMatrix, ← BdfTable.beta_eq_iff htable htable']
  simp only [Outcome.done, Outcome.mk.injEq, and_true, Mat.ofMatrix_injective.eq_iff,
    sub_right_inj, mul_smul]
  rw [← sub_eq_zero, ← sub_smul, smul_eq_zero, sub_eq_zero]

end StepEquation

namespace Chain

variable {σ α : Type}

/-! ## Closed attempts -/

theorem settle_of_done (first : Member α) (live : Vec α) (point : StepPoint α)
    (startingUp : Bool) {inner : Attempt α} (h : inner.ending = .done) :
    ∃ after, (settle (first.entered point) (first.stencil.rotate live) startingUp inner).chain =
        after :: inner.chain ∧
      after.point = point ∧ after.stencil = first.stencil.rotate live := by
  rw [settle, h]
  exact ⟨_, rfl, rfl, rfl⟩

/-- After a completed step, every member that the step reached answers for its own
formula, over its stencil with the live state rotated in. -/
theorem system?_closed (equation : StepEquation σ α) {live : Vec α} {point : StepPoint α}
    {solved : Outcome α (Vec α)} {chain : Chain α} (hdone : solved.ending = .done) {i : Nat}
    {member : Member α}
    (hreached : Reached point.step chain i) (hmember : chain[i]? = some member) :
    system? equation ((closed live point solved chain).chain.drop i) =
      some (equation.system point (member.stencil.rotate live)) := by
  induction chain generalizing i with
  | nil => simp at hmember
  | cons first auxiliary ih =>
      by_cases hd : point.step ≤ stencilSize auxiliary
      · have hinner : (closed live point solved auxiliary).ending = .done := by
          rw [← Ending.isDone_iff, isDone_closed, hdone]
          rfl
        obtain ⟨after, hchain, hpoint, hstencil⟩ := settle_of_done first live point true hinner
        rw [closed, if_pos hd, hchain]
        cases i with
        | zero =>
            obtain rfl := Option.some.inj hmember
            rw [List.drop_zero, system?, hpoint, hstencil]
        | succ i => exact ih (reached_succ.1 hreached).2 hmember
      · have hinner : (Attempt.mk auxiliary solved.value solved.ending).ending = .done := hdone
        obtain ⟨after, hchain, hpoint, hstencil⟩ := settle_of_done first live point false hinner
        rw [closed, if_neg hd, hchain]
        cases i with
        | zero =>
            obtain rfl := Option.some.inj hmember
            rw [List.drop_zero, system?, hpoint, hstencil]
        | succ i => exact absurd (reached_succ.1 hreached).1 hd

/-- The member that solves a step is the last one it reaches, and the first one if
nothing behind it has states enough. -/
theorem solving?_reached {step : Nat} {chain : Chain α} {worker : Member α}
    (h : solving? step chain = some worker) :
    ∃ i, chain[i]? = some worker ∧ Reached step chain i ∧
      (i = 0 ↔ stencilSize chain.tail < step) := by
  induction chain, h using solving?_induction with
  | own auxiliary hd => exact ⟨0, rfl, reached_zero, iff_of_true rfl hd⟩
  | handed first auxiliary hd _ ih =>
      obtain ⟨i, hworker, hreached, -⟩ := ih
      exact ⟨i + 1, hworker, reached_succ.2 ⟨hd, hreached⟩,
        iff_of_false i.succ_ne_zero (Nat.not_lt.2 hd)⟩

/-! ## Attempts -/

variable [Scalar α] [Journal α σ] (equation : StepEquation σ α) (solver : Solver σ α)

/-- The states of the first member after an attempt: the live state is among them if the
step was completed. -/
theorem head?_stencils_attempt (member : Member α) (auxiliary : Chain α) (guess : Guess σ α)
    (live : Vec α) (now dt : α) (step : Nat) (env : σ) :
    let result := (attempt equation solver (member :: auxiliary) guess live now dt step env).1
    result.chain.stencils.head? =
      some (if result.ending.isDone then member.stencil.rotate live else member.stencil) := by
  intro result
  by_cases hdone : result.ending = .done
  · have hstencils : result.chain.stencils = pushed live step (member :: auxiliary) :=
      (attempt_keeps equation solver hdone).2
    rw [hstencils, if_pos (Ending.isDone_iff.2 hdone)]
    rfl
  · have hstencils : result.chain.stencils = stencils (member :: auxiliary) :=
      (attempt_restores equation solver hdone).2
    rw [hstencils, if_neg (mt Ending.isDone_iff.1 hdone)]
    rfl

/-- What a stepper answers for after an attempt, as a nonlinear system: a refused one
changes nothing, and after any other it is at the point of the attempt, with the live
state rotated in if the step was completed and over the states from before it if not. -/
theorem own_system_after_attempt (member : Member α) (auxiliary : Chain α) (guess : Guess σ α)
    (live : Vec α) (now dt : α) (step : Nat) (env : σ) :
    let result := (attempt equation solver (member :: auxiliary) guess live now dt step env).1
    (step = 0 → result.chain.system? equation = system? equation (member :: auxiliary)) ∧
    (0 < step → result.chain.system? equation = some (equation.system ⟨step, now + dt, dt⟩
      (if result.ending.isDone then member.stencil.rotate live else member.stencil))) := by
  intro result
  let call : Call σ α := ⟨solver, guess, now, dt, step⟩
  constructor
  · intro hzero
    have hcall : call.step = 0 := hzero
    have hrefused := perform_of_step_zero equation hcall (member :: auxiliary) live
    exact congrArg (fun action => (action env).1.chain.system? equation) hrefused
  · intro hstep
    have hcall : 0 < call.step := hstep
    have hfirst : (member :: auxiliary)[0]? = some member := rfl
    obtain ⟨after, hafter, hupdated⟩ := perform_updated equation hcall hfirst live env
    have hpoint : after.point = call.point := (hupdated.reached reached_zero).1
    have hhead : result.chain.stencils.head? =
        some (if result.ending.isDone then member.stencil.rotate live else member.stencil) :=
      head?_stencils_attempt equation solver member auxiliary guess live now dt step env
    obtain ⟨rest, hchain⟩ := List.head?_eq_some_iff.1 (List.head?_eq_getElem?.trans hafter)
    have hresult : result.chain = after :: rest := hchain
    rw [hresult] at hhead ⊢
    have hstencil : after.stencil = _ := Option.some.inj hhead
    rw [system?, hpoint, hstencil]
    rfl

/-- The system `y' = -y` in one dimension. -/
noncomputable def decay : ContinuousSystem Unit ℝ where
  velocityBuffer := Vec.zeros 1
  jacobianBuffer := Mat.zeros 1 1
  velocity state _ _ := pure (.done (state.map fun y => -y))
  jacobian _ _ _ := pure (.done (.ofMatrix (-1 : Matrix (Fin 1) (Fin 1) ℝ)))

theorem decay_velocity (time : ℝ) :
    (decay.velocity (.ofCoords ![1]) time (Vec.zeros 1) ()).1 = .done (.ofCoords ![-1]) := by
  refine congrArg Outcome.done ((Vec.map_ofCoords (n := 1) _ _).trans ?_)
  congr 1
  funext i
  fin_cases i
  rfl

/-- A solver that takes the state 1 for a solution. -/
noncomputable def hopeful : Solver Unit ℝ where
  solve _ _ := pure (.done (.ofCoords ![1]))

/-- A solver that gives up at once. -/
def helpless : Solver Unit ℝ where
  solve _ state := pure ⟨state, .failed (.unsolved 0 (.other "stuck"))⟩

/-- A step of length 1/2 and one of length 1/4 that fails.  The own system of the stepper
is another one afterwards. -/
theorem failed_step_moves_own_system :
    let first := (attempt (.bdf decay) hopeful (bdf (.ofCoords ![3 / 2]) 1) Guess.none
      (.ofCoords ![3 / 2]) 0 (1 / 2) 1 ()).1
    let second := (attempt (.bdf decay) helpless first.chain Guess.none first.live (1 / 2) (1 / 4)
      2 ()).1
    first.ending = .done ∧
      second.ending = .failed (.timeStep 2 (1 / 4) (.unsolved 0 (.other "stuck"))) ∧
      ∃ before after, first.chain.system? (.bdf decay) = some before ∧
        second.chain.system? (.bdf decay) = some after ∧
        (before.residual (.ofCoords ![1]) before.residualBuffer ()).1 ≠
          (after.residual (.ofCoords ![1]) before.residualBuffer ()).1 ∧
        (before.jacobian (.ofCoords ![1]) before.jacobianBuffer ()).1 ≠
          (after.jacobian (.ofCoords ![1]) before.jacobianBuffer ()).1 := by
  intro first second
  let stencil : Stencil ℝ := ⟨.ofCoords ![3 / 2], []⟩
  have htable : BdfTable.ofSize? stencil.size = some (⟨[1], 1⟩ : BdfTable ℝ) := rfl
  refine ⟨rfl, rfl, _, _, rfl, rfl, ?_, ?_⟩
  · have hslots : stencil.slots = [![3 / 2]].map Vec.ofCoords := rfl
    refine (StepEquation.residual_eq_iff htable hslots (decay_velocity _)
      (decay_velocity _)).not.2 ?_
    intro h
    have hentry := congrFun h 0
    norm_num at hentry
  · refine (StepEquation.jacobian_eq_iff htable rfl rfl).not.2 ?_
    intro h
    have hentry := congrFun (congrFun h 0) 0
    norm_num at hentry

/-- What a stepper answers for after a completed step, against the system that its one
solve was handed.  The member that solved answers for that system.  The stepper itself
answers with its own formula at the same point, so that the two are the same if it
solved, which it did unless the step was handed to an auxiliary formula.  The Jacobians
of two formulas agree only over equally many states, or where there is nothing to weigh. -/
theorem own_system_after_completed_step :
    (∀ (equation : StepEquation σ α) (solver : Solver σ α) (chain : Chain α) (guess : Guess σ α)
        (live : Vec α) (now dt : α) (step : Nat) (env : σ),
      let point : StepPoint α := ⟨step, now + dt, dt⟩
      let result := (attempt equation solver chain guess live now dt step env).1
      result.ending = .done →
        ∃ i own worker, chain[0]? = some own ∧ chain[i]? = some worker ∧
          (i = 0 ↔ stencilSize chain.tail < step) ∧
          let handed := equation.system point (worker.stencil.rotate live)
          attempt equation solver chain guess live now dt step = (do
            noteAll (openingEvents now point chain)
            let solved ← solveStep solver handed (seed step guess chain) point live
            noteAll (closingEventsAll live point solved chain)
            pure (closed live point solved chain)) ∧
          system? equation (result.chain.drop i) = some handed ∧
          system? equation result.chain =
            some (equation.system point (own.stencil.rotate live))) ∧
    ∀ (system : ContinuousSystem σ ℝ) (point : StepPoint ℝ) (own worker : Stencil ℝ),
      own.size ≤ 3 → worker.size ≤ 3 →
        ∀ (n : Nat) (J : Matrix (Fin n) (Fin n) ℝ) (trial : Vec ℝ) (square : Mat ℝ) (env : σ),
          (system.jacobian trial point.time square env).1 = .done (.ofMatrix J) →
            (((StepEquation.bdf system).jacobian point own trial square env).1 =
                ((StepEquation.bdf system).jacobian point worker trial square env).1 ↔
              own.size = worker.size ∨ point.dt • J = 0) := by
  constructor
  · intro equation solver chain guess live now dt step env point result hdone
    obtain ⟨worker, hworker⟩ := solving?_of_done equation solver hdone
    obtain ⟨i, hmember, hreached, hfirst⟩ := solving?_reached hworker
    obtain ⟨solved, hclosed⟩ := exists_closed equation solver hworker guess live now dt env
    have hresult : result = closed live point solved chain := hclosed
    have hsolved : solved.ending = .done := by
      rwa [hresult, ← Ending.isDone_iff, isDone_closed, Ending.isDone_iff] at hdone
    obtain ⟨own, auxiliary, rfl⟩ : ∃ own auxiliary, chain = own :: auxiliary := by
      apply List.exists_cons_of_ne_nil
      rintro rfl
      cases hworker
    refine ⟨i, own, worker, rfl, hmember, hfirst, ?_, ?_, ?_⟩
    · exact attempt_of_solving equation solver hworker guess live now dt
    · rw [hresult]
      exact system?_closed equation hsolved hreached hmember
    · rw [hresult]
      exact system?_closed equation hsolved reached_zero rfl
  · intro system point own worker hown hworker n J trial square env hJ
    exact StepEquation.jacobian_eq_iff_size_eq hown hworker hJ

/-- A step that the formula over two states hands to the one over one state. -/
theorem handed_step_answered_by_auxiliary :
    let chain := bdf (.ofCoords ![3 / 2]) 2
    let result :=
      (attempt (.bdf decay) hopeful chain Guess.none (.ofCoords ![3 / 2]) 0 (1 / 2) 1 ()).1
    result.ending = .done ∧
      ∃ handed own, system? (.bdf decay) (result.chain.drop 1) = some handed ∧
        system? (.bdf decay) result.chain = some own ∧
        (own.jacobian (.ofCoords ![1]) own.jacobianBuffer ()).1 ≠
          (handed.jacobian (.ofCoords ![1]) own.jacobianBuffer ()).1 := by
  intro chain result
  have hdone : result.ending = .done := rfl
  obtain ⟨hsystems, hjacobians⟩ := own_system_after_completed_step (σ := Unit) (α := ℝ)
  obtain ⟨i, own, worker, hown, hworker, hfirst, -, hhanded, hanswered⟩ :=
    hsystems (.bdf decay) hopeful chain Guess.none (.ofCoords ![3 / 2]) 0 (1 / 2) 1 () hdone
  obtain rfl : i = 1 := by
    have hlength : i < 2 := (List.getElem?_eq_some_iff.1 hworker).1
    have hsize : stencilSize chain.tail = 1 := rfl
    omega
  obtain rfl := Option.some.inj hown
  obtain rfl := Option.some.inj hworker
  refine ⟨hdone, _, _, hhanded, hanswered, ?_⟩
  refine (hjacobians decay _ _ _ (by decide) (by decide) 1 (-1) _ _ () rfl).not.2 ?_
  rintro (hsize | hzero)
  · exact absurd hsize (by decide)
  · have hentry := congrFun (congrFun hzero 0) 0
    norm_num at hentry

/-- A solver that leaves the residual at the state 1 for a solution. -/
noncomputable def revealing : Solver Unit ℝ where
  solve system _ := do
    let residual ← system.residual (.ofCoords ![1]) system.residualBuffer
    pure (.done residual.value)

theorem decay_residual (point : StepPoint ℝ) (stencil : Stencil ℝ) (ys : List (Fin 1 → ℝ))
    {table : BdfTable ℝ} (htable : BdfTable.ofSize? stencil.size = some table)
    (hslots : stencil.slots = ys.map Vec.ofCoords) :
    ((StepEquation.bdf decay).residual point stencil (.ofCoords ![1]) (Vec.zeros 1) ()).1 =
      .done (.ofCoords (![1] - mix table.alpha ys - (table.beta * point.dt) • ![-1])) := by
  rw [StepEquation.residual_of_velocity htable (decay_velocity _), hslots,
    BdfTable.residual_ofCoords]
  rfl

/-- The first step of the formula over two states.  The residual that the stepper answers
after it at the state 1 is not the one that the solver was given there. -/
theorem handed_step_leaves_other_system :
    let result := (attempt (.bdf decay) revealing (bdf (.ofCoords ![3 / 2]) 2) Guess.none
      (.ofCoords ![3 / 2]) 0 (1 / 2) 1 ()).1
    result.ending = .done ∧ result.live = .ofCoords ![0] ∧
      ∃ own, system? (.bdf decay) result.chain = some own ∧
        (own.residual (.ofCoords ![1]) own.residualBuffer ()).1 = .done (.ofCoords ![-1 / 6]) := by
  intro result
  have hhanded := decay_residual ⟨1, 0 + 1 / 2, 1 / 2⟩ ⟨.ofCoords ![3 / 2], []⟩ [![3 / 2]] rfl rfl
  have hanswered := decay_residual ⟨1, 0 + 1 / 2, 1 / 2⟩
    ⟨.ofCoords ![3 / 2], [.ofCoords ![3 / 2]]⟩ [![3 / 2], ![3 / 2]] rfl rfl
  refine ⟨rfl, ?_, _, rfl, ?_⟩
  · refine (congrArg Outcome.value hhanded).trans (congrArg Vec.ofCoords ?_)
    ext i
    fin_cases i
    norm_num [mix]
  · refine hanswered.trans (congrArg (Outcome.done ∘ Vec.ofCoords) ?_)
    ext i
    fin_cases i
    norm_num [mix]

end Chain

end TimeStepping
