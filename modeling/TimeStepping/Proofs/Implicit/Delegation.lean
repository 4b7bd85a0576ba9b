import TimeStepping.Implicit.Attempt

/-!
# How an attempt runs down a chain

A step is handed from member to member until it reaches one that has enough
history of its own.  That member solves its equation, once, and the attempt is
closed again at every member on the way back.  `attempt_of_solving` states this
as an equation between programs: all that depends on the environment is the
single solve in the middle, and what happens to the chain is the pure function
`closed` of what the solve ended in.
-/

namespace TimeStepping

/-- A member while it attempts the step at `point`. -/
def Member.entered {α : Type} (member : Member α) (point : StepPoint α) : Member α :=
  { member with point := point, recovery := member.stencil.oldest }

namespace Chain

variable {σ α : Type}

/-- The stencils of all members. -/
def stencils (chain : Chain α) : List (Stencil α) :=
  chain.map (·.stencil)

/-- The member that solves a step; none if the step is refused. -/
def solving? (step : Nat) : Chain α → Option (Member α)
  | [] => none
  | member :: auxiliary =>
      if step ≤ stencilSize auxiliary then solving? step auxiliary else some member

/-- Why a step is refused that no member solves. -/
def refusal (step : Nat) : Chain α → Misconfiguration α
  | [] => .noAuxiliary step
  | _ :: _ => .stepZero

/-- The chain, the live state and the ending of an attempt whose solve ended in `solved`. -/
def closed (live : Vec α) (point : StepPoint α) (solved : Outcome α (Vec α)) :
    Chain α → Attempt α
  | [] => ⟨[], solved.value, solved.ending⟩
  | member :: auxiliary =>
      if point.step ≤ stencilSize auxiliary then
        settle (member.entered point) (member.stencil.rotate live) true
          (closed live point solved auxiliary)
      else
        settle (member.entered point) (member.stencil.rotate live) false
          ⟨auxiliary, solved.value, solved.ending⟩

/-- The guess that takes part in a step: the caller's, unless the first member
hands the step on. -/
def seed (step : Nat) (guess : Guess σ α) : Chain α → Guess σ α
  | [] => guess
  | _ :: auxiliary => if step ≤ stencilSize auxiliary then Guess.none else guess

/-- What is reported on the way down to the solve. -/
def openingEvents (now : α) (point : StepPoint α) : Chain α → List (Event α)
  | [] => []
  | member :: auxiliary =>
      .stepBegun member.name point.step now point.dt ::
        if point.step ≤ stencilSize auxiliary then openingEvents now point auxiliary else []

/-- What is reported on the way back. -/
def closingEventsAll (live : Vec α) (point : StepPoint α) (solved : Outcome α (Vec α)) :
    Chain α → List (Event α)
  | [] => []
  | member :: auxiliary =>
      if point.step ≤ stencilSize auxiliary then
        closingEventsAll live point solved auxiliary ++
          closingEvents (member.entered point) (closed live point solved auxiliary).ending
      else closingEvents (member.entered point) solved.ending

/-! ## Which member solves -/

theorem solving?_eq_none_iff {step : Nat} {chain : Chain α} :
    solving? step chain = none ↔ chain = [] ∨ step = 0 := by
  induction chain with
  | nil => simp [solving?]
  | cons member auxiliary ih =>
      by_cases h : step ≤ stencilSize auxiliary
      · simp only [solving?, if_pos h, ih, reduceCtorEq, false_or, or_iff_right_iff_imp]
        rintro rfl
        simpa [stencilSize] using h
      · have hne : step ≠ 0 := by omega
        simp [solving?, h, hne]

theorem solving?_cons_of_le {step : Nat} {member : Member α} {auxiliary : Chain α}
    (h : step ≤ stencilSize auxiliary) :
    solving? step (member :: auxiliary) = solving? step auxiliary := by
  simp [solving?, h]

theorem solving?_cons_of_lt {step : Nat} {member : Member α} {auxiliary : Chain α}
    (h : stencilSize auxiliary < step) :
    solving? step (member :: auxiliary) = some member := by
  simp [solving?, Nat.not_le.2 h]

/-- Induction along the members that a step is handed through, back from the one that
solves it. -/
@[elab_as_elim]
theorem solving?_induction {step : Nat} {member : Member α}
    {motive : (chain : Chain α) → solving? step chain = some member → Prop}
    (own : ∀ auxiliary (hd : stencilSize auxiliary < step),
      motive (member :: auxiliary) (solving?_cons_of_lt hd))
    (handed : ∀ first auxiliary (hd : step ≤ stencilSize auxiliary)
      (h : solving? step auxiliary = some member), motive auxiliary h →
        motive (first :: auxiliary) ((solving?_cons_of_le hd).trans h))
    (chain : Chain α) (h : solving? step chain = some member) : motive chain h := by
  induction chain with
  | nil => cases h
  | cons first auxiliary ih =>
      by_cases hd : step ≤ stencilSize auxiliary
      · have hrest := (solving?_cons_of_le hd).symm.trans h
        exact handed first auxiliary hd hrest (ih hrest)
      · have hown := (solving?_cons_of_lt (Nat.not_le.1 hd)).symm.trans h
        cases hown
        exact own auxiliary (Nat.not_le.1 hd)

@[simp] theorem seed_none (step : Nat) (chain : Chain α) :
    seed step (Guess.none : Guess σ α) chain = Guess.none := by
  cases chain <;> simp [seed]

/-! ## The closed form of an attempt -/

variable [Journal α σ]

theorem noteAll_append (first second : List (Event α)) :
    noteAll (first ++ second) = (do noteAll first; noteAll second : StateM σ Unit) := by
  funext env
  simp only [noteAll, List.foldl_append]
  rfl

theorem noteAll_cons (event : Event α) (events : List (Event α)) :
    noteAll (event :: events) = (do note event; noteAll events : StateM σ Unit) := by
  rfl

variable [Scalar α] (equation : StepEquation σ α) (solver : Solver σ α)

/-- A refused step changes nothing and reports nothing. -/
theorem attempt_of_refused {chain : Chain α} {step : Nat} (h : solving? step chain = none)
    (guess : Guess σ α) (live : Vec α) (now dt : α) :
    attempt equation solver chain guess live now dt step =
      pure ⟨chain, live, .failed (.configuration (refusal step chain))⟩ := by
  cases chain with
  | nil => rfl
  | cons member auxiliary =>
      have hzero : step = 0 := by simpa using solving?_eq_none_iff.1 h
      simp [attempt, hzero, refusal]

/-- The only solve of an attempt is that of the solving member, over its own
stencil with the live state rotated in. -/
theorem attempt_of_solving {chain : Chain α} {step : Nat} {member : Member α}
    (h : solving? step chain = some member) (guess : Guess σ α) (live : Vec α) (now dt : α) :
    let point : StepPoint α := ⟨step, now + dt, dt⟩
    attempt equation solver chain guess live now dt step = (do
      noteAll (openingEvents now point chain)
      let solved ← solveStep solver (equation.system point (member.stencil.rotate live))
        (seed step guess chain) point live
      noteAll (closingEventsAll live point solved chain)
      pure (closed live point solved chain)) := by
  intro point
  have hstep : step ≠ 0 := by
    rintro rfl
    rw [solving?_eq_none_iff.2 (.inr rfl)] at h
    cases h
  induction chain, h using solving?_induction generalizing guess with
  | own auxiliary hd =>
      have hlast : ¬step ≤ stencilSize auxiliary := Nat.not_le.2 hd
      simp only [attempt, if_neg hstep, decide_eq_false hlast, if_false, Bool.false_eq_true,
        openingEvents, closingEventsAll, closed, seed, if_neg hlast, noteAll_cons, bind_assoc,
        pure_bind, point]
      rfl
  | handed first auxiliary hd _ ih =>
      have hinner := ih Guess.none
      rw [seed_none] at hinner
      simp only [attempt, if_neg hstep, decide_eq_true hd, if_true, hinner, openingEvents,
        closingEventsAll, closed, seed, if_pos hd, noteAll_cons, noteAll_append, bind_assoc,
        pure_bind, point]
      rfl

end Chain

end TimeStepping
