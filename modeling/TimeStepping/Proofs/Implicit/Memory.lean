import TimeStepping.Proofs.Implicit.Restart

/-!
# What a member remembers

Every member of a chain keeps the point of its last attempt and the phase it was left
in.  A call sets the points of the members it reaches on its way down the chain and
the phases on its way back, and does not touch the members it does not reach.  So
what a member remembers is, after any calls, a function of the calls that reached it.
-/

namespace TimeStepping

variable {σ α : Type}

namespace Ending

/-- Whether control came back with a result, and not with a fault. -/
def returned : Ending α → Bool
  | fault _ => false
  | _ => true

end Ending

/-- The phase a step leaves a member in. -/
def Phase.after (phase : Phase) (delegated : Bool) : Ending α → Phase
  | .done => .afterStep delegated
  | .failed _ => rolledBack
  | .fault _ => phase

namespace Chain

/-! ## Reaching a member -/

/-- A step is handed down to member `i` if the chain behind each member above it has
states enough to take the step. -/
def Reached (step : Nat) (chain : Chain α) (i : Nat) : Prop :=
  ∀ above < i, step ≤ stencilSize (chain.drop (above + 1))

instance (step : Nat) (chain : Chain α) (i : Nat) : Decidable (Reached step chain i) :=
  inferInstanceAs (Decidable (∀ above < i, _))

variable {step i : Nat} {member : Member α} {chain chain' auxiliary : Chain α}

theorem reached_zero : Reached step chain 0 :=
  fun _ h => absurd h (Nat.not_lt_zero _)

theorem reached_succ :
    Reached step (member :: auxiliary) (i + 1) ↔
      step ≤ stencilSize auxiliary ∧ Reached step auxiliary i := by
  constructor
  · intro h
    exact ⟨h 0 (Nat.succ_pos i), fun above habove => h (above + 1) (Nat.succ_lt_succ habove)⟩
  · rintro ⟨hfirst, hrest⟩ above habove
    cases above with
    | zero => exact hfirst
    | succ above => exact hrest above (Nat.lt_of_succ_lt_succ habove)

theorem stencilSize_drop_eq (h : chain.layout = chain'.layout) (i : Nat) :
    stencilSize (chain.drop i) = stencilSize (chain'.drop i) := by
  refine stencilSize_eq_of_layout_eq ?_
  simp only [layout, List.map_drop] at h ⊢
  rw [h]

theorem reached_iff_of_layout_eq (h : chain.layout = chain'.layout) :
    Reached step chain i ↔ Reached step chain' i := by
  simp only [Reached, stencilSize_drop_eq h]

/-! ## One call -/

/-- What a call makes of what member `i` remembers: if it is reached, the point of the
call and the phase that follows, and nothing otherwise. -/
structure Updated (chain : Chain α) (i : Nat) (point : StepPoint α) (ending : Ending α)
    (before after : Member α) : Prop where
  reached : Reached point.step chain i → after.point = point ∧
    after.phase = before.phase.after (decide (point.step ≤ stencilSize (chain.drop (i + 1)))) ending
  unreached : ¬Reached point.step chain i → after = before

theorem settle_remembers (member : Member α) (point : StepPoint α) (rotated : Stencil α)
    (startingUp : Bool) (inner : Attempt α) :
    ∃ after, (settle (member.entered point) rotated startingUp inner).chain =
        after :: inner.chain ∧
      after.point = point ∧ after.phase = member.phase.after startingUp inner.ending := by
  unfold settle
  cases inner.ending with
  | done => exact ⟨_, rfl, rfl, rfl⟩
  | failed cause => exact ⟨_, rfl, rfl, rfl⟩
  | fault cause => exact ⟨_, rfl, rfl, rfl⟩

/-- A member looks at the ending of a solve through the members that handed it up, which
may wrap a failure but do not make it anything else. -/
theorem after_closed (phase : Phase) (delegated : Bool) (live : Vec α) (point : StepPoint α)
    (solved : Outcome α (Vec α)) (chain : Chain α) :
    phase.after delegated (closed live point solved chain).ending =
      phase.after delegated solved.ending := by
  have hsettle : ∀ (member : Member α) rotated startingUp (inner : Attempt α),
      phase.after delegated (settle member rotated startingUp inner).ending =
        phase.after delegated inner.ending := by
    intro member rotated startingUp inner
    unfold settle
    cases inner.ending <;> rfl
  induction chain with
  | nil => rfl
  | cons member auxiliary ih =>
      by_cases hd : point.step ≤ stencilSize auxiliary
      · rw [closed, if_pos hd, hsettle, ih]
      · rw [closed, if_neg hd, hsettle]

theorem closed_updated (live : Vec α) (point : StepPoint α) (solved : Outcome α (Vec α))
    (h : chain[i]? = some member) :
    ∃ after, (closed live point solved chain).chain[i]? = some after ∧
      Updated chain i point solved.ending member after := by
  induction chain generalizing i with
  | nil => simp at h
  | cons first auxiliary ih =>
      by_cases hd : point.step ≤ stencilSize auxiliary
      · rw [closed, if_pos hd]
        obtain ⟨after, hchain, hpoint, hphase⟩ := settle_remembers first point
          (first.stencil.rotate live) true (closed live point solved auxiliary)
        rw [hchain]
        cases i with
        | zero =>
            obtain rfl := Option.some.inj h
            rw [after_closed] at hphase
            exact ⟨after, rfl, fun _ => ⟨hpoint, by simpa [hd] using hphase⟩,
              fun hnot => absurd reached_zero hnot⟩
        | succ i =>
            obtain ⟨later, hlater, hupdated⟩ := ih h
            refine ⟨later, hlater, fun hreached => hupdated.reached (reached_succ.1 hreached).2,
              fun hnot => hupdated.unreached fun hreached => hnot ?_⟩
            exact reached_succ.2 ⟨hd, hreached⟩
      · rw [closed, if_neg hd]
        obtain ⟨after, hchain, hpoint, hphase⟩ := settle_remembers first point
          (first.stencil.rotate live) false ⟨auxiliary, solved.value, solved.ending⟩
        rw [hchain]
        cases i with
        | zero =>
            obtain rfl := Option.some.inj h
            exact ⟨after, rfl, fun _ => ⟨hpoint, by simpa [hd] using hphase⟩,
              fun hnot => absurd reached_zero hnot⟩
        | succ i =>
            exact ⟨member, h, fun hreached => absurd (reached_succ.1 hreached).1 hd, fun _ => rfl⟩

end Chain

/-- The point a call asks for. -/
def Call.point [Add α] (call : Call σ α) : StepPoint α :=
  ⟨call.step, call.now + call.dt, call.dt⟩

namespace Chain

section Memory

/-- The last call that reached member `i`. -/
def lastReaching (chain : Chain α) (i : Nat) (calls : List (Call σ α × Ending α)) :
    Option (Call σ α × Ending α) :=
  calls.find? fun record => decide (0 < record.1.step ∧ Reached record.1.step chain i)

/-- The last call that reached member `i` and came back. -/
def lastReturning (chain : Chain α) (i : Nat) (calls : List (Call σ α × Ending α)) :
    Option (Call σ α × Ending α) :=
  calls.find? fun record =>
    decide (0 < record.1.step ∧ Reached record.1.step chain i) && record.2.returned

/-- The phase of a member with a chain of `below` states behind it, after the last call
that came back, if there was one. -/
def phaseAfter (below : Nat) : Option (Call σ α × Ending α) → Phase
  | some (_, .failed _) => .rolledBack
  | some (call, _) => if call.step ≤ below then .bootstrapping else .steadyState
  | none => if 0 < below then .bootstrapping else .steadyState

/-- What member `i` of a chain with the layout of `start` remembers of calls, the last
one first. -/
structure Remembers [Scalar α] (start : Chain α) (i : Nat) (calls : List (Call σ α × Ending α))
    (member : Member α) : Prop where
  point : member.point = (lastReaching start i calls).elim ⟨0, 0, 0⟩ fun last => last.1.point
  phase : member.phase =
    phaseAfter (stencilSize (start.drop (i + 1))) (lastReturning start i calls)

variable {start : Chain α} {calls : List (Call σ α × Ending α)} {call : Call σ α}
  {ending : Ending α} {before after : Member α}

theorem Remembers.unreached [Scalar α] (h : Remembers start i calls member)
    (hnot : ¬(0 < call.step ∧ Reached call.step start i)) :
    Remembers start i ((call, ending) :: calls) member := by
  obtain ⟨hpoint, hphase⟩ := h
  constructor
  · rw [hpoint, lastReaching, lastReaching, List.find?_cons_of_neg (by simpa using hnot)]
  · rw [hphase, lastReturning, lastReturning, List.find?_cons_of_neg (by simp [hnot])]

theorem Remembers.reached [Scalar α] (h : Remembers start i calls before)
    (hreached : 0 < call.step ∧ Reached call.step start i) (hpoint : after.point = call.point)
    (hphase : after.phase =
      before.phase.after (decide (call.step ≤ stencilSize (start.drop (i + 1)))) ending) :
    Remembers start i ((call, ending) :: calls) after := by
  constructor
  · rw [hpoint, lastReaching, List.find?_cons_of_pos (by simpa using hreached)]
    rfl
  · rw [hphase, lastReturning]
    cases ending with
    | done =>
        rw [List.find?_cons_of_pos (by simp [hreached, Ending.returned])]
        simp [Phase.after, Phase.afterStep, phaseAfter]
    | failed cause =>
        rw [List.find?_cons_of_pos (by simp [hreached, Ending.returned])]
        rfl
    | fault cause =>
        rw [List.find?_cons_of_neg (by simp [Ending.returned])]
        exact h.phase

end Memory

/-! ## New chains -/

section New

variable [Scalar α]

/-- Chains as they are built, from the last member on. -/
inductive Built : Chain α → Prop
  | empty : Built []
  | fresh (name : String) (order extra : Nat) (state : Vec α) {auxiliary : Chain α}
      (h : Built auxiliary) : Built (Chain.fresh name order extra state auxiliary)

theorem built_bdf (state : Vec α) (size : Nat) : Built (bdf state size) := by
  induction size with
  | zero => exact .empty
  | succ extra ih => exact .fresh _ _ _ _ ih

theorem Built.remembers {start : Chain α} (h : Built start) {member : Member α}
    (hi : start[i]? = some member) :
    Remembers start i ([] : List (Call σ α × Ending α)) member := by
  suffices hnew : member.point = ⟨0, 0, 0⟩ ∧
      member.phase = initialPhase (start.drop (i + 1)) from ⟨hnew.1, hnew.2⟩
  induction h generalizing i with
  | empty => simp at hi
  | fresh name order extra state h ih =>
      cases i with
      | zero =>
          obtain rfl := Option.some.inj hi
          exact ⟨rfl, rfl⟩
      | succ i => exact ih hi

end New

/-! ## Sequences of calls -/

variable [Scalar α] [Journal α σ] (equation : StepEquation σ α)

/-- A call for step 0 is refused, and that is all. -/
theorem perform_of_step_zero {call : Call σ α} (h : call.step = 0) (chain : Chain α)
    (live : Vec α) :
    perform equation call chain live =
      pure ⟨chain, live, .failed (.configuration (refusal 0 chain))⟩ := by
  rw [perform, h]
  exact attempt_of_refused equation call.solver (solving?_eq_none_iff.2 (.inr rfl)) ..

theorem perform_updated {call : Call σ α} (hstep : 0 < call.step)
    (h : chain[i]? = some member) (live : Vec α) (env : σ) :
    let result := (perform equation call chain live env).1
    ∃ after, result.chain[i]? = some after ∧
      Updated chain i call.point result.ending member after := by
  intro result
  have hsome : solving? call.step chain ≠ none := by
    rw [Ne, solving?_eq_none_iff]
    rintro (rfl | hzero)
    · simp at h
    · omega
  obtain ⟨solver, hsolver⟩ := Option.ne_none_iff_exists'.1 hsome
  obtain ⟨solved, hclosed⟩ :=
    exists_closed equation call.solver hsolver call.guess live call.now call.dt env
  have hresult : result = closed live call.point solved chain := hclosed
  obtain ⟨after, hafter, hreached, hunreached⟩ := closed_updated live call.point solved h
  rw [hresult]
  exact ⟨after, hafter, by rwa [after_closed], hunreached⟩

/-- Calls of a stepper, the last one first, with what they ended in and the chain they
left.  Between two calls the live state and the environment are the caller's. -/
inductive Called (start : Chain α) : List (Call σ α × Ending α) → Chain α → Prop
  | none : Called start [] start
  | call {calls : List (Call σ α × Ending α)} {chain : Chain α}
      (before : Called start calls chain) (call : Call σ α) (live : Vec α) (env : σ) :
      Called start ((call, (perform equation call chain live env).1.ending) :: calls)
        (perform equation call chain live env).1.chain

namespace Called

variable {equation} {start : Chain α} {calls : List (Call σ α × Ending α)}

theorem layout (h : Called equation start calls chain) : chain.layout = start.layout := by
  induction h with
  | none => rfl
  | call before call live env ih => exact (layout_attempt ..).trans ih

-- The induction is on the calls.  Layouts are constant, so that who is reached by a
-- step is known from the chain as it was built.
theorem remembers (hstart : Built start) (h : Called equation start calls chain)
    (hi : chain[i]? = some member) : Remembers start i calls member := by
  induction h generalizing member with
  | none => exact hstart.remembers hi
  | @call calls chain before call live env ih =>
      rcases Nat.eq_zero_or_pos call.step with hzero | hstep
      · rw [perform_of_step_zero equation hzero] at hi ⊢
        exact (ih hi).unreached (by omega)
      · have hlayout : (perform equation call chain live env).1.chain.layout = chain.layout :=
          layout_attempt ..
        have hlength : i < chain.length := by
          have hlengths := congrArg List.length hlayout
          have hbound := (List.getElem?_eq_some_iff.1 hi).1
          simp only [Chain.layout, List.length_map] at hlengths
          omega
        have hbefore := List.getElem?_eq_getElem hlength
        obtain ⟨after, hafter, hupdated⟩ := perform_updated equation hstep hbefore live env
        obtain rfl : after = member := Option.some.inj (hafter.symm.trans hi)
        have hiff : Reached call.step chain i ↔ Reached call.step start i :=
          reached_iff_of_layout_eq before.layout
        by_cases hreached : Reached call.step chain i
        · obtain ⟨hpoint, hphase⟩ := hupdated.reached hreached
          rw [stencilSize_drop_eq before.layout] at hphase
          exact (ih hbefore).reached ⟨hstep, hiff.1 hreached⟩ hpoint hphase
        · rw [hupdated.unreached hreached]
          exact (ih hbefore).unreached fun h => hreached (hiff.2 h.2)

end Called

/-- After any calls of a stepper, with whatever step numbers and whatever they ended in,
every member remembers the last of them that reached it.  A call for step 0 changes
nothing.  Any other call sets the point and the phase of the members it reaches, which
are those above which every chain has states enough for the step, and leaves each of
the others as a whole as it was. -/
theorem members_remember_calls {start chain : Chain α} (hstart : Built start)
    {calls : List (Call σ α × Ending α)} (h : Called equation start calls chain) :
    (∀ i member, chain[i]? = some member → Remembers start i calls member) ∧
    ∀ (call : Call σ α) (live : Vec α) (env : σ),
      let result := perform equation call chain live env
      (call.step = 0 →
        result = (⟨chain, live, .failed (.configuration (refusal 0 chain))⟩, env)) ∧
      (0 < call.step → ∀ i member, chain[i]? = some member →
        ∃ after, result.1.chain[i]? = some after ∧
          Updated chain i call.point result.1.ending member after) := by
  refine ⟨fun i member hi => h.remembers hstart hi, fun call live env => ⟨fun hzero => ?_, ?_⟩⟩
  · rw [perform_of_step_zero equation hzero]
    rfl
  · exact fun hstep i member hi => perform_updated equation hstep hi live env

/-- A guess that panics. -/
def interrupted : Call Unit Float :=
  ⟨content, fun _ _ live => pure (live, some .abandoned), 0.5, 0.25, 2⟩

/-- A completed first step of two formulas, a second one that panics, and a call for step 0. -/
theorem members_remember_calls_of_interrupted :
    ∃ calls chain, Built (bdf (#[1.0] : Vec Float) 2) ∧
      Called (.bdf guarded) (bdf #[1.0] 2) calls chain ∧
      calls.map (fun record => (record.1.step, record.2.returned)) =
        [(0, true), (2, false), (1, true)] ∧
      ∃ first second, chain = [first, second] ∧
        first.point = ⟨2, 0.5 + 0.25, 0.25⟩ ∧ first.phase = .bootstrapping ∧
        second.point = ⟨1, 0.0 + 0.5, 0.5⟩ ∧ second.phase = .steadyState := by
  have hbuilt := built_bdf (#[1.0] : Vec Float) 2
  have hnone : Called (.bdf guarded) (bdf #[1.0] 2) [] (bdf #[1.0] 2) := .none
  have hfirst := hnone.call ⟨content, Guess.none, 0.0, 0.5, 1⟩ #[1.0] ()
  have hcalled := (hfirst.call interrupted #[1.0] ()).call
    ⟨content, Guess.none, 0.0, 0.5, 0⟩ #[1.0] ()
  obtain ⟨hmembers, -⟩ := members_remember_calls (.bdf guarded) hbuilt hcalled
  obtain ⟨hpoint, hphase⟩ := hmembers 0 _ rfl
  obtain ⟨hpoint', hphase'⟩ := hmembers 1 _ rfl
  exact ⟨_, _, hbuilt, hcalled, rfl, _, _, rfl, hpoint, hphase, hpoint', hphase'⟩

end Chain

end TimeStepping
