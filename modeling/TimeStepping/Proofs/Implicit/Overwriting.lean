import TimeStepping.Proofs.Implicit.Transaction
import TimeStepping.Proofs.Repeatable

/-!
# What a completed step writes over

Besides its stencil, a member keeps what it last attempted: the step, the state
its rotation dropped, and its phase.  A step that is not completed changes only
these, and only where it was handed to; a completed step with the same number
writes over all of them.  `blank` removes them from a chain.
-/

namespace TimeStepping

/-- A member without the memory of its last attempt. -/
def Member.blank {α : Type} [Scalar α] (member : Member α) : Member α :=
  { member with recovery := member.stencil.oldest, point := ⟨0, 0, 0⟩, phase := .steadyState }

namespace Chain

variable {σ α : Type}

theorem solveStep_repeatable {solver : Solver σ α} {system : AlgebraicSystem σ α}
    {guess : Guess σ α} (hsolver : solver.Repeatable) (hsystem : system.Pure)
    (hguess : ∀ step time live, Repeatable (guess step time live)) (point : StepPoint α)
    (live : Vec α) :
    Repeatable (solveStep solver system guess point live) := by
  refine (hguess point.step point.time live).bind ?_
  rintro ⟨start, fault⟩
  cases fault with
  | none => exact hsolver system hsystem start
  | some cause => exact .pure _

theorem seed_repeatable {guess : Guess σ α}
    (hguess : ∀ step time live, Repeatable (guess step time live)) (number : Nat)
    (chain : Chain α) (step : Nat) (time : α) (live : Vec α) :
    Repeatable (seed number guess chain step time live) := by
  cases chain with
  | nil => exact hguess step time live
  | cons member auxiliary =>
      by_cases hd : number ≤ stencilSize auxiliary
      · rw [seed, if_pos hd]
        exact .pure _
      · rw [seed, if_neg hd]
        exact hguess step time live

variable [Scalar α]

/-- The chain without what a completed step writes over. -/
def blank (step : Nat) : Chain α → Chain α
  | [] => []
  | member :: auxiliary =>
      member.blank ::
        if step ≤ stencilSize auxiliary then blank step auxiliary else auxiliary

@[simp] theorem stencilSize_blank (step : Nat) (chain : Chain α) :
    stencilSize (blank step chain) = stencilSize chain := by
  cases chain <;> rfl

theorem solving?_blank (step : Nat) (chain : Chain α) :
    solving? step (blank step chain) = (solving? step chain).map Member.blank := by
  induction chain with
  | nil => rfl
  | cons member auxiliary ih =>
      by_cases hd : step ≤ stencilSize auxiliary
      · simp [blank, hd, solving?, ih]
      · simp [blank, hd, solving?]

theorem seed_blank (step : Nat) (guess : Guess σ α) (chain : Chain α) :
    seed step guess (blank step chain) = seed step guess chain := by
  cases chain with
  | nil => rfl
  | cons member auxiliary =>
      by_cases hd : step ≤ stencilSize auxiliary
      · simp [blank, hd, seed]
      · simp [blank, hd, seed]

variable (live : Vec α) (point : StepPoint α) {solved : Outcome α (Vec α)} {chain : Chain α}

theorem settle_blank (member : Member α) (rotated : Stencil α) (startingUp : Bool)
    {inner : Attempt α} (h : inner.ending.isDone) :
    settle (member.blank.entered point) rotated startingUp inner =
      settle (member.entered point) rotated startingUp inner := by
  simp [settle, Ending.isDone_iff.1 h, Member.entered, Member.blank]

/-- A completed step makes the same of a chain whatever its members remember of
their last attempts. -/
theorem closed_blank (h : solved.ending.isDone) :
    closed live point solved (blank point.step chain) = closed live point solved chain := by
  induction chain with
  | nil => rfl
  | cons member auxiliary ih =>
      have hstencil : member.blank.stencil = member.stencil := rfl
      by_cases hd : point.step ≤ stencilSize auxiliary
      · rw [blank, if_pos hd, closed, stencilSize_blank, if_pos hd, closed, if_pos hd, ih, hstencil]
        exact settle_blank point member _ true (by rw [isDone_closed]; exact h)
      · rw [blank, if_neg hd, closed, if_neg hd, closed, if_neg hd, hstencil]
        exact settle_blank point member _ false h

theorem settle_of_not_done (member : Member α) (startingUp : Bool) {inner : Attempt α}
    (h : inner.ending.isDone = false) :
    ∃ after, (settle (member.entered point) (member.stencil.rotate live) startingUp inner).chain =
      after :: inner.chain ∧ after.blank = member.blank := by
  unfold settle
  cases hi : inner.ending with
  | done => simp [hi, Ending.isDone] at h
  | failed cause => exact ⟨_, rfl, by simp [Member.blank, Member.entered, Stencil.unrotate_rotate]⟩
  | fault cause => exact ⟨_, rfl, by simp [Member.blank, Member.entered, Stencil.unrotate_rotate]⟩

/-- A step that is not completed changes nothing that a completed step with the
same number keeps. -/
theorem blank_closed {member : Member α} (h : solving? point.step chain = some member)
    (hfail : solved.ending.isDone = false) :
    blank point.step (closed live point solved chain).chain = blank point.step chain := by
  induction chain, h using solving?_induction with
  | own auxiliary hd =>
      have hlast : ¬point.step ≤ stencilSize auxiliary := Nat.not_le.2 hd
      have hinner : (Attempt.mk auxiliary solved.value solved.ending).ending.isDone = false :=
        hfail
      obtain ⟨after, hchain, hafter⟩ := settle_of_not_done live point member false hinner
      rw [closed, if_neg hlast, hchain, blank, if_neg hlast, blank, if_neg hlast, hafter]
  | handed first auxiliary hd h ih =>
      have hinner : (closed live point solved auxiliary).ending.isDone = false := by
        rw [isDone_closed]
        exact hfail
      obtain ⟨after, hchain, hafter⟩ := settle_of_not_done live point first true hinner
      have hsize : stencilSize (closed live point solved auxiliary).chain =
          stencilSize auxiliary :=
        stencilSize_eq_of_stencils_eq (closed_restores h hfail).2
      rw [closed, if_pos hd, hchain, blank, hsize, if_pos hd, ih, blank, if_pos hd, hafter]

/-! ## Attempts -/

variable [Journal α σ] {equation : StepEquation σ α} {solver : Solver σ α} {guess : Guess σ α}
variable {step : Nat}

/-- With pure equations and repeatable callbacks the solve of an attempt can be
looked at in any environment. -/
theorem attempt_eq_closed (hequation : equation.Pure) (hsolver : solver.Repeatable)
    (hguess : ∀ step time live, Repeatable (guess step time live)) {member : Member α}
    (h : solving? step chain = some member) (now dt : α) (env env' : σ) :
    (attempt equation solver chain guess live now dt step env).1 =
      closed live ⟨step, now + dt, dt⟩
        (solveStep solver (equation.system ⟨step, now + dt, dt⟩ (member.stencil.rotate live))
          (seed step guess chain) ⟨step, now + dt, dt⟩ live env').1 chain := by
  have hsolve : Repeatable (solveStep solver
      (equation.system ⟨step, now + dt, dt⟩ (member.stencil.rotate live))
      (seed step guess chain) ⟨step, now + dt, dt⟩ live) :=
    solveStep_repeatable hsolver (hequation _ _) (seed_repeatable hguess step chain) _ live
  rw [attempt_of_solving equation solver h guess live now dt, hsolve env' _]
  rfl

/-- Two chains that differ only in what a completed step writes over make the
same of it. -/
theorem attempt_eq_of_blank_eq {chain' : Chain α} (hblank : blank step chain = blank step chain')
    (hequation : equation.Pure) (hsolver : solver.Repeatable)
    (hguess : ∀ step time live, Repeatable (guess step time live)) {now dt : α} {env : σ}
    (hdone : (attempt equation solver chain guess live now dt step env).1.ending = .done)
    (env' : σ) :
    (attempt equation solver chain' guess live now dt step env').1 =
      (attempt equation solver chain guess live now dt step env).1 := by
  obtain ⟨member, hs⟩ := solving?_of_done equation solver hdone
  have hmembers : (solving? step chain').map Member.blank = some member.blank := by
    rw [← solving?_blank, ← hblank, solving?_blank, hs, Option.map_some]
  obtain ⟨member', hs', hmember⟩ := Option.map_eq_some_iff.1 hmembers
  have hstencil : member'.stencil = member.stencil := by
    simpa [Member.blank] using congrArg Member.stencil hmember
  have hseed : seed step guess chain' = seed step guess chain := by
    rw [← seed_blank, ← hblank, seed_blank]
  rw [attempt_eq_closed live hequation hsolver hguess hs now dt env env] at hdone ⊢
  rw [attempt_eq_closed live hequation hsolver hguess hs' now dt env' env, hstencil, hseed]
  rw [← Ending.isDone_iff, isDone_closed] at hdone
  rw [← closed_blank live _ hdone, ← hblank, closed_blank live _ hdone]

/-- An attempt that is not completed leaves no trace but what a completed one
writes over. -/
theorem blank_attempt {now dt : α} {env : σ}
    (hfail : (attempt equation solver chain guess live now dt step env).1.ending ≠ .done) :
    blank step (attempt equation solver chain guess live now dt step env).1.chain =
      blank step chain := by
  cases hs : solving? step chain with
  | none =>
      rw [attempt_of_refused equation solver hs]
      rfl
  | some member =>
      obtain ⟨solved, hclosed⟩ := exists_closed equation solver hs guess live now dt env
      rw [hclosed] at hfail ⊢
      rw [Ne, ← Ending.isDone_iff, isDone_closed, Bool.not_eq_true] at hfail
      exact blank_closed live ⟨step, now + dt, dt⟩ hs hfail

end Chain

end TimeStepping
