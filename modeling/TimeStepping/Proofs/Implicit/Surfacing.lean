import TimeStepping.Proofs.Implicit.Restart
import TimeStepping.Proofs.Implicit.StartUp

/-!
# How failures surface

Every member of a chain that takes part in a step looks at the failure of the
solve on its way to the caller.  Together they wrap it once, and only if it is
neither fatal nor a time-step failure already.  The members add no failure of
their own: the end of the chain is never asked to step, and the formulas over one
to three states have their coefficients.
-/

namespace TimeStepping

variable {σ α β : Type}

/-- What the caller of a step is told of a failure inside it. -/
def Failure.surfaced (step : Nat) (dt : α) : Failure α → Failure α
  | timeStep number size source => timeStep number size source
  | timeStepTooSmall number size minimum => timeStepTooSmall number size minimum
  | configuration cause => configuration cause
  | other => timeStep step dt other

theorem Failure.asTimeStepFailure_eq_surfaced (step : Nat) (dt : α) (failure : Failure α) :
    failure.asTimeStepFailure step dt = failure.surfaced step dt := by
  cases failure <;> rfl

namespace Ending

def surfaced (step : Nat) (dt : α) : Ending α → Ending α
  | failed cause => failed (cause.surfaced step dt)
  | ending => ending

def misconfiguration? : Ending α → Option (Misconfiguration α)
  | failed (.configuration cause) => some cause
  | _ => none

theorem surfaced_idem (step : Nat) (dt : α) (ending : Ending α) :
    (ending.surfaced step dt).surfaced step dt = ending.surfaced step dt := by
  cases ending with
  | done => rfl
  | fault cause => rfl
  | failed cause => cases cause <;> rfl

@[simp] theorem misconfiguration?_surfaced (step : Nat) (dt : α) (ending : Ending α) :
    (ending.surfaced step dt).misconfiguration? = ending.misconfiguration? := by
  cases ending with
  | done => rfl
  | fault cause => rfl
  | failed cause => cases cause <;> rfl

theorem misconfiguration?_eq_some {ending : Ending α} {cause : Misconfiguration α} :
    ending.misconfiguration? = some cause ↔ ending = .failed (.configuration cause) := by
  cases ending with
  | done => simp [misconfiguration?]
  | fault fault => simp [misconfiguration?]
  | failed failure => cases failure <;> simp [misconfiguration?]

end Ending

/-! ## Evaluations -/

theorem Outcome.misconfiguration?_asResidualFailure (step : Nat) (time : α)
    (outcome : Outcome α β) :
    (outcome.mapFailure (·.asResidualFailure step time)).ending.misconfiguration? =
      outcome.ending.misconfiguration? := by
  obtain ⟨value, ending⟩ := outcome
  cases ending with
  | done => rfl
  | fault cause => rfl
  | failed cause => cases cause <;> rfl

theorem Outcome.misconfiguration?_ofChecked (old : β) (result : Except Fault β) :
    (Outcome.ofChecked old result : Outcome α β).ending.misconfiguration? = none := by
  cases result <;> rfl

namespace StepEquation

/-- The equation of a step is misconfigured where the evaluations of the system
are, for the same cause, and nowhere else. -/
structure AsConfigured (equations : AlgebraicSystem σ α)
    (residual : Vec α → Vec α → StateM σ (Outcome α (Vec α)))
    (jacobian : Vec α → Mat α → StateM σ (Outcome α (Mat α))) : Prop where
  residual (trial buffer : Vec α) (env : σ) :
    (equations.residual trial buffer env).1.ending.misconfiguration? =
      (residual trial buffer env).1.ending.misconfiguration?
  jacobian (trial : Vec α) (buffer : Mat α) (env : σ) :
    (equations.jacobian trial buffer env).1.ending.misconfiguration? =
      (jacobian trial buffer env).1.ending.misconfiguration?

theorem withTable_of_size [Scalar α] {stencil : Stencil α} (h : stencil.size ≤ 3) {buffer : β}
    {evaluate : BdfTable α → StateM σ (Outcome α β)} (P : StateM σ (Outcome α β) → Prop)
    (hevaluate : ∀ table, P (evaluate table)) : P (withTable stencil buffer evaluate) := by
  obtain ⟨table, htable⟩ := BdfTable.exists_ofSize? (α := α) (Nat.succ_pos stencil.older.length) h
  have hsize : BdfTable.ofSize? stencil.size = some table := htable
  rw [withTable, hsize]
  exact hevaluate table

theorem misconfiguration?_bind {action : StateM σ (Outcome α β)}
    {next : Outcome α β → StateM σ (Outcome α β)}
    (h : ∀ outcome env, (next outcome env).1.ending.misconfiguration? =
      outcome.ending.misconfiguration?) (env : σ) :
    ((action >>= next) env).1.ending.misconfiguration? =
      (action env).1.ending.misconfiguration? :=
  h _ _

theorem bdf_asConfigured [Scalar α] (system : ContinuousSystem σ α) (point : StepPoint α)
    {stencil : Stencil α} (h : stencil.size ≤ 3) :
    AsConfigured ((bdf system).system point stencil)
      (fun trial buffer => system.velocity trial point.time buffer)
      (fun trial buffer => system.jacobian trial point.time buffer) where
  residual trial buffer env := by
    refine withTable_of_size h (fun action => (action env).1.ending.misconfiguration? = _)
      fun table => misconfiguration?_bind ?_ env
    rintro ⟨value, ending⟩ env
    cases ending with
    | done => exact Outcome.misconfiguration?_ofChecked ..
    | failed cause => exact Outcome.misconfiguration?_asResidualFailure ..
    | fault cause => rfl
  jacobian trial buffer env := by
    refine withTable_of_size h (fun action => (action env).1.ending.misconfiguration? = _)
      fun table => misconfiguration?_bind ?_ env
    rintro ⟨value, ending⟩ env
    cases ending with
    | done => rfl
    | failed cause => exact Outcome.misconfiguration?_asResidualFailure ..
    | fault cause => rfl

theorem discrete_asConfigured (system : DiscreteSystem σ α) (point : StepPoint α)
    (stencil : Stencil α) :
    AsConfigured ((discrete system).system point stencil)
      (fun trial buffer => system.residual point trial stencil.slots buffer)
      (fun trial buffer => system.jacobian point trial stencil.slots buffer) where
  residual _ _ _ := Outcome.misconfiguration?_asResidualFailure ..
  jacobian _ _ _ := Outcome.misconfiguration?_asResidualFailure ..

end StepEquation

namespace Chain

/-! ## Chains -/

theorem ending_settle (member : Member α) (rotated : Stencil α) (startingUp : Bool)
    (inner : Attempt α) :
    (settle member rotated startingUp inner).ending =
      inner.ending.surfaced member.point.step member.point.dt := by
  unfold settle
  cases inner.ending with
  | done => rfl
  | fault cause => rfl
  | failed cause => exact congrArg Ending.failed (Failure.asTimeStepFailure_eq_surfaced ..)

/-- However many members a step is handed through, its failure is wrapped once. -/
theorem ending_closed (live : Vec α) (point : StepPoint α) (solved : Outcome α (Vec α))
    {chain : Chain α} {member : Member α} (h : solving? point.step chain = some member) :
    (closed live point solved chain).ending = solved.ending.surfaced point.step point.dt := by
  induction chain, h using solving?_induction with
  | own auxiliary hd =>
      rw [closed, if_neg (Nat.not_le.2 hd), ending_settle]
      rfl
  | handed first auxiliary hd _ ih =>
      rw [closed, if_pos hd, ending_settle, ih]
      exact Ending.surfaced_idem ..

theorem solving?_mem {step : Nat} {chain : Chain α} {member : Member α}
    (h : solving? step chain = some member) : member ∈ chain := by
  induction chain, h using solving?_induction with
  | own auxiliary _ => exact List.mem_cons_self
  | handed first auxiliary _ _ ih => exact List.mem_cons_of_mem first ih

/-- A step is misconfigured only where its solver reports so; a guess cannot do it. -/
theorem misconfiguration?_solveStep (solver : Solver σ α) (system : AlgebraicSystem σ α)
    (guess : Guess σ α) (point : StepPoint α) (live : Vec α) (cause : Misconfiguration α) :
    Ensures (fun _ => True) (solveStep solver system guess point live) fun outcome _ =>
      outcome.ending.misconfiguration? = some cause →
        ∃ start env', (solver.solve system start env').1.ending.misconfiguration? = some cause := by
  refine Ensures.bind (Q := fun _ _ => True) ⟨fun _ _ => trivial⟩ ?_
  rintro ⟨start, fault⟩
  cases fault with
  | none => exact ⟨fun env _ h => ⟨start, env, h⟩⟩
  | some fault => exact .pure fun _ _ h => by cases h

variable [Scalar α]

theorem size_le_of_mem_bdf {state : Vec α} {size : Nat} {member : Member α}
    (h : member ∈ bdf state size) : member.stencil.size ≤ size := by
  induction size with
  | zero => cases h
  | succ extra ih =>
      rcases List.mem_cons.1 h with rfl | hrest
      · simp
      · exact Nat.le_succ_of_le (ih hrest)

theorem size_le_of_layout {state : Vec α} {size : Nat} {chain : Chain α}
    (h : chain.layout = (bdf state size).layout) {member : Member α} (hmember : member ∈ chain) :
    member.stencil.size ≤ size := by
  have hmem : (member.name, member.stencil.size) ∈ (bdf state size).layout :=
    h ▸ List.mem_map_of_mem hmember
  obtain ⟨twin, htwin, heq⟩ := List.mem_map.1 hmem
  exact (Prod.mk.inj heq).2 ▸ size_le_of_mem_bdf htwin

variable [Journal α σ]

/-- The one solve of a step, and what becomes of its failure.  Its ending, wrapped
as a time-step failure of this step unless it is fatal or a time-step failure
already, is the ending of the attempt, whichever member of the chain solves.  An
attempt at a step not numbered 0 is therefore misconfigured only if its solver
reports so, and what the solver is given to evaluate, at chains of the formulas
over one to three states and for systems in discrete time, only where the system is. -/
theorem failures_surface_once :
    (∀ (equation : StepEquation σ α) (solver : Solver σ α) (chain : Chain α) (guess : Guess σ α)
        (live : Vec α) (now dt : α) (step : Nat), chain ≠ [] → 0 < step →
      let point : StepPoint α := ⟨step, now + dt, dt⟩
      ∃ member ∈ chain,
        attempt equation solver chain guess live now dt step = (do
          noteAll (openingEvents now point chain)
          let solved ← solveStep solver (equation.system point (member.stencil.rotate live))
            (seed step guess chain) point live
          noteAll (closingEventsAll live point solved chain)
          pure (closed live point solved chain)) ∧
        (∀ solved, (closed live point solved chain).ending = solved.ending.surfaced step dt) ∧
        ∀ env cause, (attempt equation solver chain guess live now dt step env).1.ending =
            .failed (.configuration cause) →
          ∃ start env', (solver.solve (equation.system point (member.stencil.rotate live)) start
            env').1.ending = .failed (.configuration cause)) ∧
    (∀ (system : ContinuousSystem σ α) (state : Vec α) (size : Nat) (chain : Chain α),
      size ≤ 3 → chain.layout = (bdf state size).layout →
      ∀ member ∈ chain, ∀ (live : Vec α) (point : StepPoint α),
        StepEquation.AsConfigured
          ((StepEquation.bdf system).system point (member.stencil.rotate live))
          (fun trial buffer => system.velocity trial point.time buffer)
          (fun trial buffer => system.jacobian trial point.time buffer)) ∧
    ∀ (system : DiscreteSystem σ α) (point : StepPoint α) (stencil : Stencil α),
      StepEquation.AsConfigured ((StepEquation.discrete system).system point stencil)
        (fun trial buffer => system.residual point trial stencil.slots buffer)
        (fun trial buffer => system.jacobian point trial stencil.slots buffer) := by
  refine ⟨?_, ?_, StepEquation.discrete_asConfigured⟩
  · intro equation solver chain guess live now dt step hchain hstep point
    have hsome : solving? step chain ≠ none := by
      rw [Ne, solving?_eq_none_iff]
      exact fun h => h.elim hchain (Nat.ne_of_gt hstep)
    obtain ⟨member, hs⟩ := Option.ne_none_iff_exists'.1 hsome
    have hattempt := attempt_of_solving equation solver hs guess live now dt
    have hending := fun solved => ending_closed live point solved hs
    refine ⟨member, solving?_mem hs, hattempt, hending, fun env cause hcause => ?_⟩
    rw [hattempt, ← Ending.misconfiguration?_eq_some] at hcause
    have hsolved : (solveStep solver (equation.system point (member.stencil.rotate live))
        (seed step guess chain) point live
        (noteAll (openingEvents now point chain) env).2).1.ending.misconfiguration? =
          some cause := by
      rw [← Ending.misconfiguration?_surfaced step dt, ← hending]
      exact hcause
    obtain ⟨start, env', hsolver⟩ :=
      (misconfiguration?_solveStep ..).holds _ trivial hsolved
    exact ⟨start, env', Ending.misconfiguration?_eq_some.1 hsolver⟩
  · intro system state size chain hsize hlayout member hmember live point
    refine StepEquation.bdf_asConfigured system point ?_
    rw [Stencil.size_rotate]
    exact Nat.le_trans (size_le_of_layout hlayout hmember) hsize

/-- A solver that never gets anywhere. -/
def stuck : Solver Unit Float where
  solve _ state := pure ⟨state, .failed (.velocity "stuck")⟩

/-- A first step that is handed down to the formula over one state. -/
theorem failures_surface_once_at_stuck :
    (attempt (.bdf resting) stuck (bdf #[1.0] 3) Guess.none #[1.0] 0.0 0.5 1 ()).1.ending =
        .failed (.timeStep 1 0.5 (.velocity "stuck")) ∧
      ∀ member ∈ bdf #[1.0] 3, StepEquation.AsConfigured
        ((StepEquation.bdf resting).system ⟨1, 0.5, 0.5⟩ (member.stencil.rotate #[1.0]))
        (fun trial buffer => resting.velocity trial 0.5 buffer)
        (fun trial buffer => resting.jacobian trial 0.5 buffer) := by
  obtain ⟨hattempts, hbdf, -⟩ := failures_surface_once (σ := Unit) (α := Float)
  obtain ⟨member, -, hattempt, hending, -⟩ := hattempts (.bdf resting) stuck (bdf #[1.0] 3)
    Guess.none #[1.0] 0.0 0.5 1 (by simp [bdf, fresh]) (by decide)
  constructor
  · rw [hattempt]
    exact hending ⟨_, .failed (.velocity "stuck")⟩
  · exact fun member hmember =>
      hbdf resting #[1.0] 3 (bdf #[1.0] 3) (by decide) rfl member hmember #[1.0] ⟨1, 0.5, 0.5⟩

end Chain

end TimeStepping
