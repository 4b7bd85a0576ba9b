import TimeStepping.Proofs.Elimination
import TimeStepping.Proofs.Iteration
import TimeStepping.Proofs.Systems
import TimeStepping.Proofs.Watching

/-!
# What a Newton solve means

A solve makes updates, each of which solves the equations as they are linearized at
the iterate, until something stops it.  `Path` says which updates there may be, `Stops`
what ends them, and `Explained` what a solve then leaves: its state, its count, its
ending and the evaluations it made.  Main statement: `Newton.solve_explained`.
-/

namespace TimeStepping

variable {σ τ α : Type}

/-! ## Samples -/

/-- An evaluation of the equations: where it was made, and what came of it. -/
inductive Newton.Sample (α : Type) where
  | residual (state : Vec α) (outcome : Outcome α (Vec α))
  | jacobian (state : Vec α) (outcome : Outcome α (Mat α))

namespace AlgebraicSystem

/-- The same equations, which also list their evaluations. -/
def sampled (system : AlgebraicSystem σ α) : AlgebraicSystem (List (Newton.Sample α) × σ) α where
  residualBuffer := system.residualBuffer
  jacobianBuffer := system.jacobianBuffer
  residual state buffer :=
    logging (fun _ outcome _ => .residual state outcome) (system.residual state buffer)
  jacobian state buffer :=
    logging (fun _ outcome _ => .jacobian state outcome) (system.jacobian state buffer)

theorem sampled_actsAs (system : AlgebraicSystem σ α) : system.sampled.ActsAs system :=
  ⟨rfl, rfl, fun _ _ => ⟨fun _ => rfl⟩, fun _ _ => ⟨fun _ => rfl⟩⟩

theorem residual_samples (system : AlgebraicSystem σ α) (state buffer : Vec α) :
    Logs (system.sampled.residual state buffer) fun samples outcome =>
      samples = [.residual state outcome] :=
  ⟨fun _ => ⟨_, rfl, rfl⟩⟩

theorem jacobian_samples (system : AlgebraicSystem σ α) (state : Vec α) (buffer : Mat α) :
    Logs (system.sampled.jacobian state buffer) fun samples outcome =>
      samples = [.jacobian state outcome] :=
  ⟨fun _ => ⟨_, rfl, rfl⟩⟩

end AlgebraicSystem

namespace Newton

/-- The states that residuals were evaluated at. -/
def residualStates (samples : List (Sample α)) : List (Vec α) :=
  samples.filterMap fun
    | .residual state _ => some state
    | .jacobian .. => none

/-- The states that Jacobians were evaluated at. -/
def jacobianStates (samples : List (Sample α)) : List (Vec α) :=
  samples.filterMap fun
    | .residual .. => none
    | .jacobian state _ => some state

variable [Scalar α]

/-! ## Updates -/

/-- An update of the iterate, by the solution of the equations linearized there. -/
structure Update (α : Type) [Scalar α] where
  state : Vec α
  residual : Vec α
  jacobian : Mat α
  correction : Vec α
  next : Vec α
  solved : jacobian.apply correction = .ok (Vec.negate residual)
  moved : Vec.add state correction = .ok next

/-- The evaluations an update rests on. -/
def Update.samples (update : Update α) : List (Sample α) :=
  [.residual update.state (.done update.residual), .jacobian update.state (.done update.jacobian)]

/-- The residual after the updates meets a tolerance; the relative one takes an update. -/
def Settings.ResidualMet (settings : Settings α) (updates : List (Update α)) (residual : Vec α) :
    Prop :=
  Vec.norm residual ≤ settings.residualAbs ∨
    ∃ first ∈ updates.head?,
      Vec.norm residual ≤ settings.residualRel * Vec.norm first.residual

/-- The correction of an update meets a tolerance. -/
def Settings.CorrectionMet (settings : Settings α) (update : Update α) : Prop :=
  Vec.norm update.correction ≤ settings.correctionAbs ∨
    Vec.norm update.correction ≤ settings.correctionRel * Vec.norm update.next

/-- The last of the updates does not stop the solve. -/
structure Open (settings : Settings α) (updates : List (Update α)) : Prop where
  finite : ∀ last ∈ updates.getLast?, Scalar.isFinite (Vec.norm last.correction)
  unmet : ∀ last ∈ updates.getLast?, ¬settings.CorrectionMet last

/-- The residual after the updates does not stop it either. -/
structure Warranted (settings : Settings α) (updates : List (Update α)) (residual : Vec α) :
    Prop where
  finite : Scalar.isFinite (Vec.norm residual)
  unmet : ¬settings.ResidualMet updates residual

/-- The updates from `start` on, none of which was made where the solve should have stopped. -/
inductive Path (settings : Settings α) (start : Vec α) : List (Update α) → Vec α → Prop
  | start : Path settings start [] start
  | update {updates : List (Update α)} {update : Update α}
      (before : Path settings start updates update.state) (hopen : Open settings updates)
      (hlimit : updates.length < settings.maxIterations)
      (hwarranted : Warranted settings updates update.residual) :
      Path settings start (updates ++ [update]) update.next

/-! ## Endings -/

/-- What a solve makes of an evaluation that is not completed: a failure is told with
the number of updates, unless it is fatal. -/
def interruption (updates : Nat) : Ending α → Ending α
  | .failed cause =>
      .failed (if cause.isRecoverable then .unevaluated updates cause else cause)
  | ending => ending

/-- How a solve ends at `state`, and the evaluations it has made there. -/
inductive Stops (settings : Settings α) (linear : LinearSolver α) (updates : List (Update α))
    (state : Vec α) : List (Sample α) → Ending α → Prop
  | corrected {last : Update α} (hlast : last ∈ updates.getLast?)
      (hfinite : Scalar.isFinite (Vec.norm last.correction)) (hmet : settings.CorrectionMet last) :
      Stops settings linear updates state [] .done
  | correctionNotFinite {last : Update α} (hlast : last ∈ updates.getLast?)
      (hfinite : ¬Scalar.isFinite (Vec.norm last.correction)) :
      Stops settings linear updates state []
        (.failed (.unsolved updates.length .correctionNotFinite))
  | limit (hopen : Open settings updates) (hlimit : updates.length = settings.maxIterations) :
      Stops settings linear updates state []
        (.failed (.unsolved updates.length (.iterationLimit settings.maxIterations)))
  | residualInterrupted {outcome : Outcome α (Vec α)} (hopen : Open settings updates)
      (hlimit : updates.length < settings.maxIterations) (hundone : outcome.ending ≠ .done) :
      Stops settings linear updates state [.residual state outcome]
        (interruption updates.length outcome.ending)
  | residualNotFinite {r : Vec α} (hopen : Open settings updates)
      (hlimit : updates.length < settings.maxIterations) (hfinite : ¬Scalar.isFinite (Vec.norm r)) :
      Stops settings linear updates state [.residual state (.done r)]
        (.failed (.unsolved updates.length .residualNotFinite))
  | solved {r : Vec α} (hopen : Open settings updates)
      (hlimit : updates.length < settings.maxIterations) (hfinite : Scalar.isFinite (Vec.norm r))
      (hmet : settings.ResidualMet updates r) :
      Stops settings linear updates state [.residual state (.done r)] .done
  | jacobianInterrupted {r : Vec α} {outcome : Outcome α (Mat α)} (hopen : Open settings updates)
      (hlimit : updates.length < settings.maxIterations) (hwarranted : Warranted settings updates r)
      (hundone : outcome.ending ≠ .done) :
      Stops settings linear updates state [.residual state (.done r), .jacobian state outcome]
        (interruption updates.length outcome.ending)
  | singular {r : Vec α} {j : Mat α} (hopen : Open settings updates)
      (hlimit : updates.length < settings.maxIterations) (hwarranted : Warranted settings updates r)
      (hsingular : linear j (Vec.negate r) = .ok none) :
      Stops settings linear updates state [.residual state (.done r), .jacobian state (.done j)]
        (.failed (.unsolved updates.length .singularJacobian))
  | unsolvable {r : Vec α} {j : Mat α} {cause : Fault} (hopen : Open settings updates)
      (hlimit : updates.length < settings.maxIterations) (hwarranted : Warranted settings updates r)
      (hfault : linear j (Vec.negate r) = .error cause) :
      Stops settings linear updates state [.residual state (.done r), .jacobian state (.done j)]
        (.fault cause)
  | unaddable {r correction : Vec α} {j : Mat α} {cause : Fault} (hopen : Open settings updates)
      (hlimit : updates.length < settings.maxIterations) (hwarranted : Warranted settings updates r)
      (hsolved : linear j (Vec.negate r) = .ok (some correction))
      (hfault : Vec.add state correction = .error cause) :
      Stops settings linear updates state [.residual state (.done r), .jacobian state (.done j)]
        (.fault cause)

/-- What a solve from `start` leaves. -/
structure Explained (settings : Settings α) (linear : LinearSolver α) (start : Vec α)
    (updates : List (Update α)) (samples : List (Sample α)) (outcome : Outcome α (Vec α)) :
    Prop where
  path : Path settings start updates outcome.value
  bounded : updates.length ≤ settings.maxIterations
  ended : ∃ last, samples = updates.flatMap Update.samples ++ last ∧
    ∀ ending, Stops settings linear updates outcome.value last ending ↔ outcome.ending = ending
  converged : outcome.ending = .done →
    (∃ r, .residual outcome.value (.done r) ∈ samples ∧ settings.ResidualMet updates r) ∨
      ∃ last ∈ updates.getLast?, settings.CorrectionMet last
  counted : ∀ n, (∃ reason, outcome.ending = .failed (.unsolved n reason)) ∨
    (∃ source, outcome.ending = .failed (.unevaluated n source)) → n = updates.length
  residuals : residualStates samples = updates.map (·.state) ∨
    residualStates samples = updates.map (·.state) ++ [outcome.value]
  jacobians : jacobianStates samples <+: residualStates samples

omit [Scalar α] in
theorem interruption_eq_done {updates : Nat} {ending : Ending α}
    (h : interruption updates ending = .done) : ending = .done := by
  cases ending with
  | done => rfl
  | failed cause => cases h
  | fault cause => cases h

omit [Scalar α] in
theorem interruption_counted {updates n : Nat} {ending : Ending α}
    (h : (∃ reason, interruption updates ending = .failed (.unsolved n reason)) ∨
      ∃ source, interruption updates ending = .failed (.unevaluated n source)) : n = updates := by
  cases ending with
  | done => simp [interruption] at h
  | fault cause => simp [interruption] at h
  | failed cause =>
      by_cases hcause : cause.isRecoverable
      · simp [interruption, hcause] at h
        exact h.symm
      · cases cause <;> simp [interruption, Failure.isRecoverable] at h hcause

namespace Stops

variable {settings : Settings α} {linear : LinearSolver α} {updates : List (Update α)}
  {state : Vec α} {last : List (Sample α)} {ending ending' : Ending α}

theorem unique (h : Stops settings linear updates state last ending)
    (h' : Stops settings linear updates state last ending') : ending = ending' := by
  cases h with
  | corrected hlast hfinite hmet =>
      cases h' with
      | corrected => rfl
      | correctionNotFinite hlast' hfinite' =>
          obtain rfl := Option.some.inj (hlast.symm.trans hlast')
          exact absurd hfinite hfinite'
      | limit hopen => exact absurd hmet (hopen.unmet _ hlast)
  | correctionNotFinite hlast hfinite =>
      cases h' with
      | corrected hlast' hfinite' =>
          obtain rfl := Option.some.inj (hlast.symm.trans hlast')
          exact absurd hfinite' hfinite
      | correctionNotFinite => rfl
      | limit hopen => exact absurd (hopen.finite _ hlast) hfinite
  | limit hopen hlimit =>
      cases h' with
      | corrected hlast hfinite hmet => exact absurd hmet (hopen.unmet _ hlast)
      | correctionNotFinite hlast hfinite => exact absurd (hopen.finite _ hlast) hfinite
      | limit => rfl
  | residualInterrupted hopen hlimit hundone =>
      cases h' with
      | residualInterrupted => rfl
      | residualNotFinite => exact absurd rfl hundone
      | solved => exact absurd rfl hundone
  | residualNotFinite hopen hlimit hfinite =>
      cases h' with
      | residualInterrupted _ _ hundone => exact absurd rfl hundone
      | residualNotFinite => rfl
      | solved _ _ hfinite' => exact absurd hfinite' hfinite
  | solved hopen hlimit hfinite hmet =>
      cases h' with
      | residualInterrupted _ _ hundone => exact absurd rfl hundone
      | residualNotFinite _ _ hfinite' => exact absurd hfinite hfinite'
      | solved => rfl
  | jacobianInterrupted hopen hlimit hwarranted hundone =>
      cases h' with
      | jacobianInterrupted => rfl
      | singular => exact absurd rfl hundone
      | unsolvable => exact absurd rfl hundone
      | unaddable => exact absurd rfl hundone
  | singular hopen hlimit hwarranted hsingular =>
      cases h' with
      | jacobianInterrupted _ _ _ hundone => exact absurd rfl hundone
      | singular => rfl
      | unsolvable _ _ _ hfault => cases hsingular.symm.trans hfault
      | unaddable _ _ _ hsolved => cases hsingular.symm.trans hsolved
  | unsolvable hopen hlimit hwarranted hfault =>
      cases h' with
      | jacobianInterrupted _ _ _ hundone => exact absurd rfl hundone
      | singular _ _ _ hsingular => cases hfault.symm.trans hsingular
      | unsolvable _ _ _ hfault' => cases hfault.symm.trans hfault'; rfl
      | unaddable _ _ _ hsolved => cases hfault.symm.trans hsolved
  | unaddable hopen hlimit hwarranted hsolved hfault =>
      cases h' with
      | jacobianInterrupted _ _ _ hundone => exact absurd rfl hundone
      | singular _ _ _ hsingular => cases hsolved.symm.trans hsingular
      | unsolvable _ _ _ hfault' => cases hsolved.symm.trans hfault'
      | unaddable _ _ _ hsolved' hfault' =>
          cases hsolved.symm.trans hsolved'
          cases hfault.symm.trans hfault'
          rfl

theorem counted (h : Stops settings linear updates state last ending) (n : Nat)
    (hending : (∃ reason, ending = .failed (.unsolved n reason)) ∨
      ∃ source, ending = .failed (.unevaluated n source)) : n = updates.length := by
  cases h with
  | residualInterrupted => exact interruption_counted hending
  | jacobianInterrupted => exact interruption_counted hending
  | _ => simp_all

theorem converged (h : Stops settings linear updates state last ending) (hdone : ending = .done) :
    (∃ r, .residual state (.done r) ∈ last ∧ settings.ResidualMet updates r) ∨
      ∃ final ∈ updates.getLast?, settings.CorrectionMet final := by
  cases h with
  | corrected hlast hfinite hmet => exact .inr ⟨_, hlast, hmet⟩
  | solved hopen hlimit hfinite hmet => exact .inl ⟨_, List.mem_singleton_self _, hmet⟩
  | residualInterrupted hopen hlimit hundone => exact absurd (interruption_eq_done hdone) hundone
  | jacobianInterrupted hopen hlimit hwarranted hundone =>
      exact absurd (interruption_eq_done hdone) hundone
  | _ => cases hdone

/-- The evaluations after the last update are at the state it has led to. -/
theorem samples (h : Stops settings linear updates state last ending) :
    (residualStates last = [] ∨ residualStates last = [state]) ∧
      jacobianStates last <+: residualStates last := by
  cases h <;> simp [residualStates, jacobianStates]

end Stops

theorem Path.length_le {settings : Settings α} {start state : Vec α} {updates : List (Update α)}
    (h : Path settings start updates state) : updates.length ≤ settings.maxIterations := by
  cases h with
  | start => exact Nat.zero_le _
  | update before hopen hlimit hwarranted =>
      rw [List.length_append]
      exact hlimit

section States

variable (updates : List (Update α)) (last : List (Sample α))

theorem residualStates_append :
    residualStates (updates.flatMap Update.samples ++ last) =
      updates.map (·.state) ++ residualStates last := by
  induction updates with
  | nil => rfl
  | cons update updates ih => exact congrArg (update.state :: ·) ih

theorem jacobianStates_append :
    jacobianStates (updates.flatMap Update.samples ++ last) =
      updates.map (·.state) ++ jacobianStates last := by
  induction updates with
  | nil => rfl
  | cons update updates ih => exact congrArg (update.state :: ·) ih

end States

/-! ## The iteration -/

variable {settings : Settings α} {linear : LinearSolver α} {start state : Vec α}
  {updates : List (Update α)} {samples : List (Sample α)} {report : Report α}

/-- What is left to do after the updates, and where it leads. -/
def Leads (settings : Settings α) (linear : LinearSolver α) (start : Vec α)
    (updates : List (Update α)) (samples : List (Sample α)) (report : Report α) : Prop :=
  ∃ later last, samples = later.flatMap Update.samples ++ last ∧
    Path settings start (updates ++ later) report.state ∧
    report.iterations = (updates ++ later).length ∧
    Stops settings linear (updates ++ later) report.state last report.ending

theorem Stops.leads {ending : Ending α} (hpath : Path settings start updates state)
    (h : Stops settings linear updates state samples ending) :
    Leads settings linear start updates samples ⟨state, updates.length, ending⟩ := by
  refine ⟨[], samples, rfl, ?_⟩
  rw [List.append_nil]
  exact ⟨hpath, rfl, h⟩

/-- One more update comes first. -/
theorem Leads.cons {update : Update α} {more : List (Sample α)}
    (h : Leads settings linear start (updates ++ [update]) more report) :
    Leads settings linear start updates (update.samples ++ more) report := by
  obtain ⟨later, last, rfl, hlater⟩ := h
  rw [List.append_assoc, List.singleton_append] at hlater
  exact ⟨update :: later, last, by rw [List.flatMap_cons, List.append_assoc], hlater⟩

omit [Scalar α] in
theorem interrupted_eq (state : Vec α) (iterations : Nat) (ending : Ending α) :
    Report.interrupted state iterations ending =
      ⟨state, iterations, interruption iterations ending⟩ := by
  cases ending <;> rfl

theorem residualMet_iff {residual : Vec α} {initial : α}
    (hinitial : ∀ first ∈ updates.head?, initial = Vec.norm first.residual) :
    settings.residualMet updates.length initial (Vec.norm residual) ↔
      settings.ResidualMet updates residual := by
  cases updates with
  | nil => simp [Settings.residualMet, Settings.ResidualMet]
  | cons first rest =>
      obtain rfl := hinitial first rfl
      simp [Settings.residualMet, Settings.ResidualMet]

theorem correctionMet_iff (update : Update α) :
    settings.correctionMet (Vec.norm update.correction) (Vec.norm update.next) ↔
      settings.CorrectionMet update := by
  simp [Settings.correctionMet, Settings.CorrectionMet]

/-- What the tests after an update, the last of so many, make of it. -/
def Update.tested (settings : Settings α) (count : Nat) (update : Update α) : Report α ⊕ Vec α :=
  if !Scalar.isFinite (Vec.norm update.correction) then
    .inl (.diverged update.next count .correctionNotFinite)
  else if settings.correctionMet (Vec.norm update.correction) (Vec.norm update.next) then
    .inl ⟨update.next, count, .done⟩
  else .inr update.next

/-- An update that the solve makes ends it, or leaves it open. -/
theorem Update.leads (update : Update α) (linear : LinearSolver α)
    (hpath : Path settings start updates update.state)
    (hopen : Open settings updates) (hlimit : updates.length < settings.maxIterations)
    (hwarranted : Warranted settings updates update.residual) :
    match update.tested settings (updates.length + 1) with
    | .inl report => Leads settings linear start updates update.samples report
    | .inr next => next = update.next ∧ Open settings (updates ++ [update]) := by
  unfold tested
  have hlast : (updates ++ [update]).getLast? = some update := List.getLast?_concat
  have hends : ∀ ending, Stops settings linear (updates ++ [update]) update.next [] ending →
      Leads settings linear start updates update.samples
        ⟨update.next, updates.length + 1, ending⟩ := by
    intro ending hstops
    have hleads := (hstops.leads (.update hpath hopen hlimit hwarranted)).cons
    rwa [List.length_append, List.append_nil] at hleads
  by_cases hfinite : Scalar.isFinite (Vec.norm update.correction)
  · rw [if_neg (by simp [hfinite])]
    by_cases hmet : settings.correctionMet (Vec.norm update.correction) (Vec.norm update.next)
    · rw [if_pos hmet]
      exact hends _ (.corrected hlast hfinite ((correctionMet_iff update).1 hmet))
    · rw [if_neg hmet]
      refine ⟨rfl, ?_, ?_⟩
      · rw [hlast]
        rintro _ ⟨⟩
        exact hfinite
      · rw [hlast]
        rintro _ ⟨⟩
        exact mt (correctionMet_iff update).2 hmet
  · rw [if_pos (by simp [hfinite])]
    have hstops : Stops settings linear (updates ++ [update]) update.next [] _ :=
      .correctionNotFinite hlast hfinite
    rw [List.length_append] at hstops
    exact hends _ hstops

/-- What comes of a residual and a Jacobian that were evaluated: the end, or an update
that leaves the solve open. -/
theorem correct_leads
    (hlinear : ∀ j b correction, linear j b = .ok (some correction) → j.apply correction = .ok b)
    (hpath : Path settings start updates state) (hopen : Open settings updates)
    (hlimit : updates.length < settings.maxIterations) {r : Vec α} (j : Mat α)
    (hwarranted : Warranted settings updates r) :
    match correct settings linear updates.length state r j with
    | .inl report =>
        Leads settings linear start updates
          [.residual state (.done r), .jacobian state (.done j)] report
    | .inr next =>
        ∃ update : Update α, update.state = state ∧ update.residual = r ∧ update.jacobian = j ∧
          next = update.next ∧ Open settings (updates ++ [update]) := by
  cases hsolution : linear j (Vec.negate r) with
  | error cause =>
      simp only [correct, hsolution]
      exact (Stops.unsolvable hopen hlimit hwarranted hsolution).leads hpath
  | ok found =>
      cases found with
      | none =>
          simp only [correct, hsolution]
          exact (Stops.singular hopen hlimit hwarranted hsolution).leads hpath
      | some correction =>
          cases hnext : Vec.add state correction with
          | error cause =>
              simp only [correct, hsolution, hnext]
              exact (Stops.unaddable hopen hlimit hwarranted hsolution hnext).leads hpath
          | ok next =>
              let update : Update α :=
                ⟨state, r, j, correction, next, hlinear _ _ _ hsolution, hnext⟩
              have hcorrect : correct settings linear updates.length state r j =
                  update.tested settings (updates.length + 1) := by
                simp only [correct, hsolution, hnext]
                rfl
              have htested := update.leads linear hpath hopen hlimit hwarranted
              rw [hcorrect]
              cases hresult : update.tested settings (updates.length + 1) with
              | inl report =>
                  rw [hresult] at htested
                  exact htested
              | inr after =>
                  rw [hresult] at htested
                  exact ⟨update, rfl, rfl, rfl, htested⟩

section References

variable {initial : α} {r : Vec α}
  (hinitial : ∀ first ∈ updates.head?, initial = Vec.norm first.residual)

include hinitial

/-- The relative tolerance refers to the first residual, which may be the one just evaluated. -/
theorem reference_eq :
    ∀ first ∈ updates.head?,
      (if updates.length = 0 then Vec.norm r else initial) = Vec.norm first.residual := by
  cases updates with
  | nil => simp
  | cons head rest => exact hinitial

theorem reference_eq_concat (update : Update α) (hresidual : update.residual = r) :
    ∀ first ∈ (updates ++ [update]).head?,
      (if updates.length = 0 then Vec.norm r else initial) = Vec.norm first.residual := by
  cases updates with
  | nil => simp [hresidual]
  | cons head rest => exact hinitial

end References

theorem interrupted_leads {ending : Ending α} (hpath : Path settings start updates state)
    (h : Stops settings linear updates state samples (interruption updates.length ending)) :
    Logs (pure (.interrupted state updates.length ending) : StateM (List (Sample α) × σ) (Report α))
      fun more report => Leads settings linear start updates (samples ++ more) report := by
  rw [interrupted_eq]
  refine .pure ?_
  rw [List.append_nil]
  exact h.leads hpath

/-- A residual that warrants an update leads to the end, or to what comes after the update. -/
theorem update_leads
    (hlinear : ∀ j b correction, linear j b = .ok (some correction) → j.apply correction = .ok b)
    (system : AlgebraicSystem σ α) (hpath : Path settings start updates state)
    (hopen : Open settings updates) (hlimit : updates.length < settings.maxIterations) {r : Vec α}
    (hwarranted : Warranted settings updates r) (jacobian : Mat α)
    {next : Vec α → Mat α → StateM (List (Sample α) × σ) (Report α)}
    (hnext : ∀ update : Update α, update.residual = r →
      Path settings start (updates ++ [update]) update.next → Open settings (updates ++ [update]) →
        Logs (next update.next update.jacobian)
          (Leads settings linear start (updates ++ [update]))) :
    Logs
      (do
        let j ← system.sampled.jacobian state jacobian
        match j.ending with
        | .done =>
            match correct settings linear updates.length state r j.value with
            | .inl report => pure report
            | .inr state => next state j.value
        | ending => pure (.interrupted state updates.length ending))
      fun more report =>
        Leads settings linear start updates (.residual state (.done r) :: more) report := by
  refine (system.jacobian_samples state jacobian).bind ?_
  rintro ⟨j, ending⟩ _ rfl
  cases ending with
  | failed cause =>
      exact interrupted_leads hpath (.jacobianInterrupted hopen hlimit hwarranted (by simp))
  | fault cause =>
      exact interrupted_leads hpath (.jacobianInterrupted hopen hlimit hwarranted (by simp))
  | done =>
      have hcorrect := correct_leads hlinear hpath hopen hlimit j hwarranted
      dsimp only
      cases hresult : correct settings linear updates.length state r j with
      | inl report =>
          rw [hresult] at hcorrect
          exact .pure hcorrect
      | inr after =>
          rw [hresult] at hcorrect
          obtain ⟨update, rfl, rfl, rfl, rfl, hupdated⟩ := hcorrect
          have hmore := hnext update rfl (.update hpath hopen hlimit hwarranted) hupdated
          exact hmore.weaken fun more report h => h.cons

variable [Journal α σ]

/-- The iteration goes on from updates that leave it open, to one of its ends. -/
theorem iterate_leads
    (hlinear : ∀ j b correction, linear j b = .ok (some correction) → j.apply correction = .ok b)
    (system : AlgebraicSystem σ α) (hpath : Path settings start updates state)
    (hopen : Open settings updates) {initial : α}
    (hinitial : ∀ first ∈ updates.head?, initial = Vec.norm first.residual) {remaining : Nat}
    (hremaining : updates.length + remaining = settings.maxIterations) (residual : Vec α)
    (jacobian : Mat α) :
    Logs (iterate settings linear system.sampled remaining updates.length initial state residual
        jacobian)
      (Leads settings linear start updates) := by
  induction remaining generalizing updates state initial residual jacobian with
  | zero => exact .pure ((Stops.limit hopen hremaining).leads hpath)
  | succ remaining ih =>
      have hlimit : updates.length < settings.maxIterations := by omega
      refine (system.residual_samples state residual).bind ?_
      rintro ⟨r, ending⟩ _ rfl
      cases ending with
      | failed cause => exact interrupted_leads hpath (.residualInterrupted hopen hlimit (by simp))
      | fault cause => exact interrupted_leads hpath (.residualInterrupted hopen hlimit (by simp))
      | done =>
          dsimp only
          have hreference := reference_eq (r := r) hinitial
          have hconcat := reference_eq_concat (r := r) hinitial
          generalize (if updates.length = 0 then Vec.norm r else initial) = reference
            at hreference hconcat ⊢
          by_cases hfinite : Scalar.isFinite (Vec.norm r)
          · rw [if_neg (by simp [hfinite])]
            refine Logs.silently (.note _) fun _ => ?_
            by_cases hmet : settings.residualMet updates.length reference (Vec.norm r)
            · rw [if_pos hmet]
              have hsolved := (residualMet_iff hreference).1 hmet
              exact .pure ((Stops.solved hopen hlimit hfinite hsolved).leads hpath)
            · rw [if_neg hmet]
              have hwarranted : Warranted settings updates r :=
                ⟨hfinite, mt (residualMet_iff hreference).2 hmet⟩
              refine update_leads hlinear system hpath hopen hlimit hwarranted jacobian ?_
              intro update hresidual hpath' hopen'
              have hmore := ih hpath' hopen' (hconcat update hresidual) (by simp; omega) r
                update.jacobian
              rwa [List.length_append] at hmore
          · rw [if_pos (by simp [hfinite])]
            exact .pure ((Stops.residualNotFinite hopen hlimit hfinite).leads hpath)

/-! ## The environment of a solve -/

/-- An iteration leaves alone what its equations do not see. -/
theorem iterate_beside (system : AlgebraicSystem σ α) (remaining iteration : Nat) (initial : α)
    (state residual : Vec α) (jacobian : Mat α) :
    iterate settings linear (system.beside τ) remaining iteration initial state residual jacobian =
      besides τ (iterate settings linear system remaining iteration initial state residual
        jacobian) := by
  induction remaining generalizing iteration initial state residual jacobian with
  | zero => rfl
  | succ remaining ih =>
      refine bind_besides rfl fun r => ?_
      cases r.ending with
      | failed cause => rfl
      | fault cause => rfl
      | done =>
          refine ite_besides rfl (bind_besides rfl fun _ => ite_besides rfl ?_)
          refine bind_besides rfl fun j => ?_
          cases j.ending with
          | failed cause => rfl
          | fault cause => rfl
          | done =>
              dsimp only
              cases correct settings linear iteration state r.value j.value with
              | inl report => rfl
              | inr next => exact ih ..

theorem Leads.explained (h : Leads settings linear start [] samples report) :
    ∃ updates, report.iterations = updates.length ∧
      Explained settings linear start updates samples ⟨report.state, report.ending⟩ := by
  obtain ⟨updates, last, rfl, hpath, hcount, hstops⟩ := h
  obtain ⟨hresiduals, hjacobians⟩ := hstops.samples
  refine ⟨updates, hcount, ?_⟩
  constructor
  case path => exact hpath
  case bounded => exact hpath.length_le
  case ended =>
    refine ⟨last, rfl, fun ending => ⟨hstops.unique, ?_⟩⟩
    rintro rfl
    exact hstops
  case converged =>
    intro hdone
    rcases hstops.converged hdone with ⟨r, hmem, hmet⟩ | hmet
    · exact .inl ⟨r, List.mem_append_right _ hmem, hmet⟩
    · exact .inr hmet
  case counted => exact hstops.counted
  case residuals =>
    rw [residualStates_append]
    rcases hresiduals with hnone | hone
    · exact .inl (by rw [hnone, List.append_nil])
    · exact .inr (by rw [hone])
  case jacobians =>
    rw [residualStates_append, jacobianStates_append]
    exact (List.prefix_append_right_inj _).2 hjacobians

/-- What a Newton solve means.  If the linear solver answers with nothing but solutions,
the state a solve leaves is reached by the updates it counts; what ends it is the first
thing that could; and it evaluates the residual and then the Jacobian, once each, at its
iterates in order.  None of that depends on the count an earlier solve has left. -/
theorem solve_explained (settings : Settings α) {linear : LinearSolver α}
    (hlinear : ∀ j b correction, linear j b = .ok (some correction) → j.apply correction = .ok b)
    (system : AlgebraicSystem σ α) (start : Vec α) (env : σ) :
    ∃ updates samples outcome after,
      Explained settings linear start updates samples outcome ∧
      (∀ keep : Nat → σ → σ, (solver settings linear keep).solve system start env =
        (outcome, keep updates.length after)) ∧
      ∀ earlier : Nat,
        (solver settings linear fun count env => (count, env.2)).solve
            (system.sampled.beside Nat) start (earlier, [], env) =
          (outcome, updates.length, samples, after) := by
  have hrun : Logs (run settings linear system.sampled start) (Leads settings linear start []) :=
    iterate_leads hlinear system .start ⟨by simp, by simp⟩ (by simp) (Nat.zero_add _) _ _
  have hacts : ActsAs (run settings linear system.sampled start)
      (run settings linear system start) :=
    iterate_actsAs settings linear system.sampled_actsAs ..
  have hbeside : run settings linear (system.sampled.beside Nat) start =
      besides Nat (run settings linear system.sampled start) :=
    iterate_beside ..
  have hplain := hacts.eq ([], env)
  obtain ⟨samples, hsamples, hleads⟩ := hrun.holds ([], env)
  obtain ⟨updates, hcount, hexplained⟩ := hleads.explained
  refine ⟨updates, samples, _, (run settings linear system.sampled start ([], env)).2.2, hexplained,
    fun keep => ?_, fun earlier => ?_⟩
  · simp only [solver, bind_apply, ← hplain, ← hcount]
    rfl
  · simp only [solver, bind_apply, hbeside, ← hcount]
    rw [List.nil_append] at hsamples
    rw [← hsamples]
    rfl

/-! ## A solve with one update -/

/-- The unknown less three. -/
noncomputable def shifted : AlgebraicSystem (Nat × Unit) ℝ where
  residualBuffer := Vec.zeros 1
  jacobianBuffer := Mat.zeros 1 1
  residual state _ := pure (.done (state.map fun x => x - 3))
  jacobian _ _ := pure (.done (.ofMatrix (1 : Matrix (Fin 1) (Fin 1) ℝ)))

theorem norm_single (x : ℝ) : Vec.norm (.ofCoords ![x]) = |x| := by
  rw [Vec.norm_ofCoords, ← Real.sqrt_mul_self_eq_abs]
  simp [dotProduct]

theorem solve_one (x : ℝ) :
    Mat.solve (.ofMatrix (1 : Matrix (Fin 1) (Fin 1) ℝ)) (.ofCoords ![x]) =
      .ok (some (.ofCoords ![x])) := by
  rw [Mat.solve, if_pos (by simp)]
  dsimp only
  rw [Mat.zipWith_toRows, Mat.rows_ofMatrix]
  simp [Mat.equations, Equation.solve, Equation.pivotPosition, Equation.exchange, Equation.lead,
    Equation.resolve, Vec.ofCoords]
  rfl

theorem residual_shifted (x : ℝ) (buffer : Vec ℝ) (env : Nat × Unit) :
    shifted.residual (.ofCoords ![x]) buffer env = (.done (.ofCoords ![x - 3]), env) := by
  change ((Outcome.done _ : Outcome ℝ (Vec ℝ)), env) = _
  rw [Vec.map_ofCoords]
  exact congrArg (fun value => (Outcome.done value, env)) (Vec.ofCoords_ext_single rfl)

theorem jacobian_shifted (state : Vec ℝ) (buffer : Mat ℝ) (env : Nat × Unit) :
    shifted.jacobian state buffer env =
      (.done (.ofMatrix (1 : Matrix (Fin 1) (Fin 1) ℝ)), env) :=
  rfl

/-- The correction from zero leads to three. -/
theorem correct_shifted :
    correct .standard Mat.solve 0 (.ofCoords ![0]) (.ofCoords ![0 - 3])
      (.ofMatrix (1 : Matrix (Fin 1) (Fin 1) ℝ)) = .inr (.ofCoords ![3]) := by
  have hadd : Vec.add (.ofCoords ![0]) (.ofCoords ![3]) = .ok (.ofCoords ![(3 : ℝ)]) := by
    rw [Vec.add_ofCoords]
    exact congrArg Except.ok (Vec.ofCoords_ext_single (zero_add 3))
  have hnegate : Vec.negate (Vec.ofCoords ![(0 : ℝ) - 3]) = Vec.ofCoords ![3] := by
    rw [Vec.negate, Vec.map_ofCoords]
    exact Vec.ofCoords_ext_single (by norm_num)
  simp only [correct, hnegate, solve_one, hadd, norm_single]
  norm_num [Settings.correctionMet, Settings.standard, Settings.withTolerance]

theorem run_shifted :
    run .standard Mat.solve shifted (.ofCoords ![0]) (0, ()) =
      (⟨.ofCoords ![3], 1, .done⟩, 0, ()) := by
  have hunmet : (Settings.standard : Settings ℝ).residualMet 0 |0 - 3| |0 - 3| = false := by
    norm_num [Settings.residualMet, Settings.standard, Settings.withTolerance]
  have hmet : (Settings.standard : Settings ℝ).residualMet 1 |0 - 3| |3 - 3| = true := by
    norm_num [Settings.residualMet, Settings.standard, Settings.withTolerance]
  -- The second residual is zero.
  have hsecond : ∀ residual jacobian,
      iterate .standard Mat.solve shifted (98 + 1) 1 |0 - 3| (.ofCoords ![3]) residual jacobian
        (0, ()) = (⟨.ofCoords ![3], 1, .done⟩, 0, ()) := by
    intro residual jacobian
    rw [iterate, bind_apply, residual_shifted]
    simp only [Outcome.done, norm_single, Scalar.isFinite_real, one_ne_zero, if_false, hmet]
    rfl
  change iterate .standard Mat.solve shifted (98 + 1 + 1) 0 0 (.ofCoords ![0]) _ _ (0, ()) = _
  rw [iterate, bind_apply, residual_shifted]
  simp only [Outcome.done, norm_single, Scalar.isFinite_real, if_true, hunmet]
  rw [if_neg (by simp), bind_apply, if_neg (by simp), bind_apply, jacobian_shifted]
  simp only [Outcome.done, correct_shifted]
  exact hsecond _ _

/-- A solve with elimination, which makes one update. -/
theorem solve_explained_of_shifted :
    (∀ j b correction, Mat.solve j b = .ok (some correction) →
      j.apply correction = (.ok b : Except Fault (Vec ℝ))) ∧
    ∃ updates samples, updates.length = 1 ∧
      Explained .standard Mat.solve (.ofCoords ![0]) updates samples (.done (.ofCoords ![3])) := by
  have hlinear : ∀ j b correction, Mat.solve j b = .ok (some correction) →
      j.apply correction = (.ok b : Except Fault (Vec ℝ)) := fun _ _ _ => Mat.apply_of_solve
  obtain ⟨updates, samples, outcome, after, hexplained, hsolve, -⟩ :=
    solve_explained .standard hlinear shifted (.ofCoords ![0]) (0, ())
  have hresult := hsolve fun count env => (count, env.2)
  simp only [solver, bind_apply, run_shifted] at hresult
  obtain ⟨houtcome, henv⟩ := Prod.mk.inj hresult
  obtain ⟨hcount, -⟩ := Prod.mk.inj henv
  refine ⟨hlinear, updates, samples, hcount.symm, ?_⟩
  rw [← houtcome] at hexplained
  exact hexplained

end Newton

end TimeStepping
