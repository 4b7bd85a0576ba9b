import TimeStepping.Proofs.Implicit.Delegation

/-!
# All or nothing

What an attempt leaves behind.  A member that takes part rotates the live state
into its stencil and takes it out again unless the step is completed, so a step
either reaches the stencils of every member that took part or none of them.
-/

namespace TimeStepping

namespace Chain

variable {σ α : Type}

/-- The stencils after a completed step: the live state is rotated in wherever
the step was handed to. -/
def pushed (live : Vec α) (step : Nat) : Chain α → List (Stencil α)
  | [] => []
  | member :: auxiliary =>
      member.stencil.rotate live ::
        if step ≤ stencilSize auxiliary then pushed live step auxiliary else stencils auxiliary

/-! ## Closing one member -/

theorem stencilSize_eq_of_stencils_eq {first second : Chain α}
    (h : first.stencils = second.stencils) : stencilSize first = stencilSize second := by
  cases first <;> cases second <;> simp_all [stencils, stencilSize]

@[simp] theorem isDone_settle (member : Member α) (rotated : Stencil α) (startingUp : Bool)
    (inner : Attempt α) :
    (settle member rotated startingUp inner).ending.isDone = inner.ending.isDone := by
  unfold settle
  cases inner.ending <;> rfl

/-- What a rotation of a member's stencil changed is restored from the state the
rotation dropped. -/
theorem settle_restores (member : Member α) (live : Vec α) (point : StepPoint α)
    (startingUp : Bool) {inner : Attempt α} (h : inner.ending.isDone = false) :
    let result := settle (member.entered point) (member.stencil.rotate live) startingUp inner
    result.live = live ∧ result.chain.stencils = member.stencil :: inner.chain.stencils := by
  have hback : (member.stencil.rotate live).unrotate (member.entered point).recovery =
      member.stencil := Stencil.unrotate_rotate member.stencil live
  unfold settle
  cases hi : inner.ending with
  | done => simp [hi, Ending.isDone] at h
  | failed cause => simp [stencils, hback]
  | fault cause => simp [stencils, hback]

theorem settle_keeps (member : Member α) (rotated : Stencil α) (startingUp : Bool)
    {inner : Attempt α} (h : inner.ending.isDone) :
    let result := settle member rotated startingUp inner
    result.live = inner.live ∧ result.chain.stencils = rotated :: inner.chain.stencils := by
  simp [settle, Ending.isDone_iff.1 h, stencils]

/-! ## Closing a chain -/

variable {live : Vec α} {point : StepPoint α} {solved : Outcome α (Vec α)} {chain : Chain α}

@[simp] theorem isDone_closed :
    (closed live point solved chain).ending.isDone = solved.ending.isDone := by
  induction chain with
  | nil => rfl
  | cons member auxiliary ih =>
      by_cases hd : point.step ≤ stencilSize auxiliary
      · simp [closed, hd, ih]
      · simp [closed, hd]

theorem closed_restores {member : Member α} (h : solving? point.step chain = some member)
    (hfail : solved.ending.isDone = false) :
    (closed live point solved chain).live = live ∧
      (closed live point solved chain).chain.stencils = chain.stencils := by
  induction chain, h using solving?_induction with
  | own auxiliary hd =>
      rw [closed, if_neg (Nat.not_le.2 hd)]
      exact settle_restores member live point false
        (show (Attempt.mk auxiliary solved.value solved.ending).ending.isDone = false from hfail)
  | handed first auxiliary hd _ ih =>
      have hinner : (closed live point solved auxiliary).ending.isDone = false := by
        simp [hfail]
      obtain ⟨hlive, hstencils⟩ := settle_restores first live point true hinner
      rw [closed, if_pos hd]
      exact ⟨hlive, by rw [hstencils, ih.2]; rfl⟩

theorem closed_keeps {member : Member α} (h : solving? point.step chain = some member)
    (hdone : solved.ending.isDone) :
    (closed live point solved chain).live = solved.value ∧
      (closed live point solved chain).chain.stencils = pushed live point.step chain := by
  induction chain, h using solving?_induction with
  | own auxiliary hd =>
      rw [closed, if_neg (Nat.not_le.2 hd), pushed, if_neg (Nat.not_le.2 hd)]
      exact settle_keeps (member.entered point) (member.stencil.rotate live) false
        (show (Attempt.mk auxiliary solved.value solved.ending).ending.isDone from hdone)
  | handed first auxiliary hd _ ih =>
      have hinner : (closed live point solved auxiliary).ending.isDone := by
        simp [hdone]
      obtain ⟨hlive, hstencils⟩ :=
        settle_keeps (first.entered point) (first.stencil.rotate live) true hinner
      rw [closed, if_pos hd, pushed, if_pos hd, hlive, hstencils, ih.1, ih.2]
      exact ⟨rfl, rfl⟩

/-! ## Attempts -/

variable [Scalar α] [Journal α σ] (equation : StepEquation σ α) (solver : Solver σ α)

/-- Whatever the environment is, an attempt closes the chain on some outcome of
the one solve. -/
theorem exists_closed {step : Nat} {member : Member α} (h : solving? step chain = some member)
    (guess : Guess σ α) (live : Vec α) (now dt : α) (env : σ) :
    ∃ solved, (attempt equation solver chain guess live now dt step env).1 =
      closed live ⟨step, now + dt, dt⟩ solved chain := by
  rw [attempt_of_solving equation solver h guess live now dt]
  exact ⟨_, rfl⟩

theorem solving?_of_done {chain : Chain α} {guess : Guess σ α} {live : Vec α} {now dt : α}
    {step : Nat} {env : σ}
    (h : (attempt equation solver chain guess live now dt step env).1.ending = .done) :
    ∃ member, solving? step chain = some member := by
  cases hs : solving? step chain with
  | some member => exact ⟨member, rfl⟩
  | none =>
      rw [attempt_of_refused equation solver hs] at h
      cases h

theorem attempt_restores {chain : Chain α} {guess : Guess σ α} {live : Vec α} {now dt : α}
    {step : Nat} {env : σ}
    (h : (attempt equation solver chain guess live now dt step env).1.ending ≠ .done) :
    (attempt equation solver chain guess live now dt step env).1.live = live ∧
      (attempt equation solver chain guess live now dt step env).1.chain.stencils =
        chain.stencils := by
  cases hs : solving? step chain with
  | none =>
      rw [attempt_of_refused equation solver hs]
      exact ⟨rfl, rfl⟩
  | some member =>
      obtain ⟨solved, hclosed⟩ := exists_closed equation solver hs guess live now dt env
      rw [hclosed] at h ⊢
      rw [Ne, ← Ending.isDone_iff, isDone_closed, Bool.not_eq_true] at h
      exact closed_restores hs h

theorem attempt_keeps {chain : Chain α} {guess : Guess σ α} {live : Vec α} {now dt : α}
    {step : Nat} {env : σ}
    (h : (attempt equation solver chain guess live now dt step env).1.ending = .done) :
    chain ≠ [] ∧
      (attempt equation solver chain guess live now dt step env).1.chain.stencils =
        pushed live step chain := by
  obtain ⟨member, hs⟩ := solving?_of_done equation solver h
  obtain ⟨solved, hclosed⟩ := exists_closed equation solver hs guess live now dt env
  rw [hclosed] at h ⊢
  rw [← Ending.isDone_iff, isDone_closed] at h
  refine ⟨?_, (closed_keeps hs h).2⟩
  rintro rfl
  cases hs

/-- An attempt that is not completed, because of a failure or of a fault in the
solver, the system or the guess, leaves the live state and every stencil of the
chain as they were.  A completed one leaves the stencil of the stepper with the
old live state rotated in. -/
theorem attempt_all_or_nothing (chain : Chain α) (guess : Guess σ α) (live : Vec α)
    (now dt : α) (step : Nat) (env : σ) :
    let result := (attempt equation solver chain guess live now dt step env).1
    (result.ending ≠ .done → result.live = live ∧ result.chain.stencils = chain.stencils) ∧
      (result.ending = .done → ∃ member auxiliary rest, chain = member :: auxiliary ∧
        result.chain.stencils = member.stencil.rotate live :: rest) := by
  intro result
  refine ⟨fun hfail => attempt_restores equation solver hfail, fun hdone => ?_⟩
  obtain ⟨hne, hstencils⟩ := attempt_keeps equation solver hdone
  obtain ⟨member, auxiliary, rfl⟩ := List.exists_cons_of_ne_nil hne
  exact ⟨member, auxiliary, _, rfl, hstencils⟩

end Chain

end TimeStepping
