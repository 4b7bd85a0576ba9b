import TimeStepping.Proofs.Implicit.Overwriting

/-!
# Sessions

A session is a sequence of calls of one stepper on one live state, completed or
not.  A call that is not completed leaves its trace in what the members of the
chain keep about their last attempt, and nowhere else; a later completed call
with the same step number writes over all of it.  The main statement deletes the
calls of a session that were not completed.
-/

namespace TimeStepping

/-- What the caller of a stepper chooses for one attempt. -/
structure Call (σ α : Type) where
  solver : Solver σ α
  guess : Guess σ α
  now : α
  dt : α
  step : Nat

/-- Solver and guess of the call are functions of what they are given. -/
def Call.Repeatable {σ α : Type} (call : Call σ α) : Prop :=
  call.solver.Repeatable ∧
    ∀ step time live, TimeStepping.Repeatable (call.guess step time live)

namespace Chain

variable {σ α : Type}

/-- The completed calls of a session. -/
def completed (records : List (Call σ α × Attempt α)) : List (Call σ α × Attempt α) :=
  records.filter (·.2.ending.isDone)

/-- Every call that was not completed is followed by another one for the same step. -/
def Retried : List (Call σ α × Attempt α) → Prop
  | [] => True
  | record :: rest =>
      (record.2.ending ≠ .done → ∃ next ∈ rest.head?, next.1.step = record.1.step) ∧ Retried rest

theorem completed_cons_of_done {record : Call σ α × Attempt α}
    (rest : List (Call σ α × Attempt α)) (h : record.2.ending = .done) :
    completed (record :: rest) = record :: completed rest :=
  List.filter_cons_of_pos (Ending.isDone_iff.2 h)

theorem completed_cons_of_not_done {record : Call σ α × Attempt α}
    (rest : List (Call σ α × Attempt α)) (h : record.2.ending ≠ .done) :
    completed (record :: rest) = completed rest :=
  List.filter_cons_of_neg (mt Ending.isDone_iff.1 h)

theorem getLast?_completed {records : List (Call σ α × Attempt α)} (h : Retried records) :
    (completed records).getLast? = records.getLast? := by
  induction records with
  | nil => rfl
  | cons record rest ih =>
      have hrest := ih h.2
      by_cases hdone : record.2.ending = .done
      · rw [completed_cons_of_done rest hdone, List.getLast?_cons, List.getLast?_cons, hrest]
      · obtain ⟨next, hnext, _⟩ := h.1 hdone
        obtain ⟨more, rfl⟩ := List.head?_eq_some_iff.1 hnext
        rw [completed_cons_of_not_done _ hdone, hrest, List.getLast?_cons_cons]

/-! ## Making calls -/

variable [Scalar α] [Journal α σ] (equation : StepEquation σ α)

/-- Make one call. -/
def perform (call : Call σ α) (chain : Chain α) (live : Vec α) : StateM σ (Attempt α) :=
  attempt equation call.solver chain call.guess live call.now call.dt call.step

/-- Make several calls, each on the stepper and the live state the one before it
left; the result pairs every call with what came of it. -/
def session : List (Call σ α) → Chain α → Vec α → StateM σ (List (Call σ α × Attempt α))
  | [], _, _ => pure []
  | call :: calls, chain, live => do
      let result ← perform equation call chain live
      let rest ← session calls result.chain result.live
      pure ((call, result) :: rest)

variable {equation}

@[simp] theorem session_cons (call : Call σ α) (calls : List (Call σ α)) (chain : Chain α)
    (live : Vec α) (env : σ) :
    (session equation (call :: calls) chain live env).1 =
      (call, (perform equation call chain live env).1) ::
        (session equation calls (perform equation call chain live env).1.chain
          (perform equation call chain live env).1.live
          (perform equation call chain live env).2).1 :=
  rfl

theorem head?_session (calls : List (Call σ α)) (chain : Chain α) (live : Vec α) (env : σ) :
    (session equation calls chain live env).1.head?.map Prod.fst = calls.head? := by
  cases calls <;> rfl

-- The induction is on the calls.  It carries that the chains of the two sessions
-- agree up to what the next call writes over, which holds after a failed call
-- because the next one repeats its step number.
theorem session_completed (hequation : equation.Pure) {calls : List (Call σ α)}
    (hcalls : ∀ call ∈ calls, call.Repeatable) {chain chain' : Chain α} {live : Vec α} {env : σ}
    (hretried : Retried (session equation calls chain live env).1)
    (hblank : ∀ call ∈ calls.head?, blank call.step chain = blank call.step chain') (env' : σ) :
    (session equation ((completed (session equation calls chain live env).1).map Prod.fst)
        chain' live env').1 =
      completed (session equation calls chain live env).1 := by
  induction calls generalizing chain chain' live env env' with
  | nil => rfl
  | cons call calls ih =>
      obtain ⟨hsolver, hguess⟩ := hcalls call List.mem_cons_self
      have hcalls' : ∀ next ∈ calls, next.Repeatable := fun next h =>
        hcalls next (List.mem_cons_of_mem call h)
      have hfirst := hblank call rfl
      rw [session_cons] at hretried ⊢
      obtain ⟨hnext, hretried'⟩ := hretried
      by_cases hdone : (perform equation call chain live env).1.ending = .done
      · have hsame : (perform equation call chain' live env').1 =
            (perform equation call chain live env).1 :=
          attempt_eq_of_blank_eq live hfirst hequation hsolver hguess hdone env'
        rw [completed_cons_of_done _ hdone, List.map_cons, session_cons, hsame]
        exact congrArg _ (ih hcalls' hretried' (fun _ _ => rfl) _)
      · rw [completed_cons_of_not_done _ hdone]
        have hlive : (perform equation call chain live env).1.live = live :=
          (attempt_restores equation call.solver hdone).1
        have hback : blank call.step (perform equation call chain live env).1.chain =
            blank call.step chain := blank_attempt live hdone
        obtain ⟨next, hhead, hstep⟩ := hnext hdone
        have hcall : calls.head? = some next.1 := by
          rw [← head?_session calls, Option.mem_def.1 hhead, Option.map_some]
        have hfollow : ∀ call' ∈ calls.head?,
            blank call'.step (perform equation call chain live env).1.chain =
              blank call'.step chain' := by
          intro call' hmem
          obtain rfl : next.1 = call' := Option.some.inj (hcall.symm.trans hmem)
          rw [hstep, hback, hfirst]
        have hrest := ih hcalls' hretried' hfollow env'
        rwa [hlive] at hrest ⊢

/-- Delete from a session the calls that were not completed, each of which was
retried with its step number until one was: every remaining call gives the same
result and leaves the same live state and the same stepper, in full. -/
theorem failures_leave_no_trace (hequation : equation.Pure) {calls : List (Call σ α)}
    (hcalls : ∀ call ∈ calls, call.Repeatable) {chain : Chain α} {live : Vec α} {env : σ}
    (hretried : Retried (session equation calls chain live env).1) (env' : σ) :
    let all := (session equation calls chain live env).1
    let kept := (session equation ((completed all).map Prod.fst) chain live env').1
    kept = completed all ∧ kept.getLast? = all.getLast? := by
  intro all kept
  have hkept : kept = completed all :=
    session_completed hequation hcalls hretried (fun _ _ => rfl) env'
  exact ⟨hkept, by rw [hkept, getLast?_completed hretried]⟩

/-- A solver that is content with any state. -/
def content : Solver Unit Float where
  solve _ state := pure (.done state)

/-- A system at rest that has no velocity at an empty state. -/
def guarded : ContinuousSystem Unit Float where
  velocityBuffer := #[0.0]
  jacobianBuffer := .ofFn 1 1 fun _ _ => 0.0
  velocity state _ buffer :=
    if state.isEmpty then pure ⟨buffer, .failed (.velocity "empty state")⟩
    else pure (.done #[0.0])
  jacobian _ _ buffer := pure (.done buffer)

/-- A first step, a second one by Newton iteration from a bad guess, and its retry. -/
def recovering : List (Call Unit Float) :=
  let newton := Newton.solver Newton.Settings.standard (fun _ _ => .ok none) fun _ env => env
  [⟨content, Guess.none, 0.0, 0.5, 1⟩, ⟨newton, fun _ _ _ => pure (#[], none), 0.5, 0.5, 2⟩,
    ⟨content, Guess.none, 0.5, 0.25, 2⟩]

theorem failures_leave_no_trace_of_recovering :
    let all := (session (.bdf guarded) recovering (bdf #[1.0] 2) #[1.0] ()).1
    let kept := (session (.bdf guarded) [recovering[0], recovering[2]] (bdf #[1.0] 2) #[1.0] ()).1
    all.map (·.2.ending.isDone) = [true, false, true] ∧ kept = completed all ∧
      kept.getLast? = all.getLast? := by
  have hpure : guarded.Pure := ⟨fun _ _ _ => .ite (.pure _) (.pure _), fun _ _ _ => .pure _⟩
  have hcontent : content.Repeatable := fun _ _ _ => .pure _
  have hnewton := Newton.solver_repeatable (σ := Unit) (Newton.Settings.standard (α := Float))
    (fun _ _ => .ok none) fun _ env => env
  have hcalls : ∀ call ∈ recovering, call.Repeatable := by
    simp only [recovering, List.mem_cons, List.not_mem_nil, or_false, forall_eq_or_imp, forall_eq]
    exact ⟨⟨hcontent, fun _ _ _ => .pure _⟩,
      ⟨hnewton, fun _ _ _ => .pure _⟩, hcontent, fun _ _ _ => .pure _⟩
  have hretried : Retried (session (.bdf guarded) recovering (bdf #[1.0] 2) #[1.0] ()).1 :=
    ⟨nofun, fun _ => ⟨_, rfl, rfl⟩, nofun, trivial⟩
  exact ⟨rfl, failures_leave_no_trace (StepEquation.bdf_pure hpure) hcalls hretried ()⟩

end Chain

end TimeStepping
