import TimeStepping.Proofs.Implicit.Session

/-!
# Starting up

What a chain of backward differentiation formulas solves from its first step on.
A history lists the states accepted so far, newest first; the step to attempt
next has the number of their count.  Each formula of the chain holds the newest
of them as long as the next step still reaches it, with the initial state in the
slots that no accepted state fills yet.
-/

namespace TimeStepping

namespace Chain

variable {σ α : Type}

/-- The `n` newest states of a history, filled up with the initial state. -/
def window (start : Vec α) (past : List (Vec α)) (n : Nat) : List (Vec α) :=
  (List.range n).map fun lag => past.getD lag start

theorem window_cons (start live : Vec α) (past : List (Vec α)) (n : Nat) :
    window start (live :: past) (n + 1) = live :: (window start past (n + 1)).dropLast := by
  have hdrop : (window start past (n + 1)).dropLast = window start past n := by
    simp [window, List.range_succ]
  rw [hdrop]
  simp [window, List.range_succ_eq_map]

theorem window_eq_take (start : Vec α) {past : List (Vec α)} {n : Nat} (h : n ≤ past.length) :
    window start past n = past.take n := by
  apply List.ext_getElem
  · simp [window, h]
  · intro lag h₁ h₂
    have hlag : lag < past.length := by
      simp at h₂
      omega
    simp [window, hlag]

theorem getElem?_window (start : Vec α) (past : List (Vec α)) {n lag : Nat} (h : lag < n) :
    (window start past n)[lag]? = some (past.getD lag start) := by
  simp [window, h]

/-- Stencils of the formulas over `n`, …, `1` states.  The formula over `m` states
holds the window of the history if fewer than `m` steps are accepted; otherwise
no later step reaches it, and nothing is said of its states. -/
inductive Held (start : Vec α) (past : List (Vec α)) : (n : Nat) → List (Stencil α) → Prop
  | nil : Held start past 0 []
  | cons {n : Nat} {first : Stencil α} {rest : List (Stencil α)} (hsize : first.size = n + 1)
      (hslots : past.length ≤ n → first.slots = window start past (n + 1))
      (hrest : Held start past n rest) : Held start past (n + 1) (first :: rest)

namespace Held

variable {start live : Vec α} {past : List (Vec α)} {n : Nat} {chain : Chain α}

theorem stencilSize_eq (h : Held start past n chain.stencils) : stencilSize chain = n := by
  cases chain with
  | nil =>
      cases h
      rfl
  | cons member auxiliary =>
      cases h with
      | cons hsize _ _ => exact hsize

/-- Once no later step reaches any of the formulas, the history may go on without them. -/
theorem of_le_length {stencils : List (Stencil α)} (h : Held start past n stencils)
    {past' : List (Vec α)} (hpast : n ≤ past'.length) : Held start past' n stencils := by
  induction h with
  | nil => exact .nil
  | cons hsize _ _ ih => exact .cons hsize (fun hle => by omega) (ih (by omega))

end Held

/-- Stencils that are ready for the next step: the first formula holds the window
of the history, however many steps are accepted. -/
structure Ready (start : Vec α) (past : List (Vec α)) (n : Nat) (stencils : List (Stencil α)) :
    Prop where
  held : Held start past n stencils
  leading : ∃ first rest, stencils = first :: rest ∧ first.slots = window start past n

namespace Ready

variable {start live : Vec α} {past : List (Vec α)} {n : Nat} {chain : Chain α}

theorem of_length_lt {stencils : List (Stencil α)} (h : Held start past n stencils)
    (hlt : past.length < n) : Ready start past n stencils := by
  refine ⟨h, ?_⟩
  cases h with
  | nil => omega
  | cons hsize hslots hrest => exact ⟨_, _, rfl, hslots (by omega)⟩

/-- A completed step makes the stencils ready for the one after it. -/
theorem pushed (h : Ready start past n chain.stencils) :
    Ready start (live :: past) n (pushed live (past.length + 1) chain) := by
  induction chain generalizing n with
  | nil =>
      obtain ⟨first, rest, hnil, _⟩ := h.leading
      cases hnil
  | cons member auxiliary ih =>
      obtain ⟨held, first, rest, heq, hslots⟩ := h
      obtain ⟨rfl, rfl⟩ := List.cons.inj heq
      cases held with
      | @cons m _ _ hsize _ hrest =>
          have hrotated : (member.stencil.rotate live).slots =
              window start (live :: past) (m + 1) := by
            rw [window_cons, ← hslots]
            rfl
          refine ⟨.cons (by simpa using hsize) (fun _ => hrotated) ?_, _, _, rfl, hrotated⟩
          rw [Held.stencilSize_eq hrest]
          by_cases hd : past.length + 1 ≤ m
          · rw [if_pos hd]
            exact (ih (of_length_lt hrest (by omega))).held
          · rw [if_neg hd]
            exact Held.of_le_length hrest (by simp; omega)

/-- The next step is solved over the newest accepted states, as many as there are
but no more than the first formula takes. -/
theorem solving (h : Ready start past n chain.stencils) :
    ∃ member, solving? (past.length + 1) chain = some member ∧
      member.stencil.slots = window start past (min (past.length + 1) n) := by
  induction chain generalizing n with
  | nil =>
      obtain ⟨first, rest, hnil, _⟩ := h.leading
      cases hnil
  | cons member auxiliary ih =>
      obtain ⟨held, first, rest, heq, hslots⟩ := h
      obtain ⟨rfl, rfl⟩ := List.cons.inj heq
      cases held with
      | @cons m _ _ hsize _ hrest =>
          have hm : stencilSize auxiliary = m := Held.stencilSize_eq hrest
          by_cases hd : past.length + 1 ≤ m
          · obtain ⟨inner, hinner, hwindow⟩ := ih (of_length_lt hrest (by omega))
            refine ⟨inner, by rw [solving?_cons_of_le (by omega), hinner], ?_⟩
            rw [hwindow, Nat.min_eq_left hd, Nat.min_eq_left (by omega)]
          · refine ⟨member, solving?_cons_of_lt (by omega), ?_⟩
            rw [hslots, Nat.min_eq_right (by omega)]

/-- The guess takes part in a step unless an auxiliary formula takes it. -/
theorem seed_eq (h : Ready start past n chain.stencils) (step : Nat) (guess : Guess σ α) :
    seed step guess chain = if n ≤ step then guess else Guess.none := by
  cases chain with
  | nil =>
      obtain ⟨first, rest, hnil, _⟩ := h.leading
      cases hnil
  | cons member auxiliary =>
      cases h.held with
      | @cons m _ _ _ _ hrest =>
          have hm : stencilSize auxiliary = m := Held.stencilSize_eq hrest
          by_cases hd : step ≤ m
          · rw [seed, hm, if_pos hd, if_neg (by omega)]
          · rw [seed, hm, if_neg hd, if_pos (by omega)]

end Ready

theorem slots_filled (start : Vec α) (extra : Nat) :
    (Stencil.filled extra start).slots = window start [] (extra + 1) := by
  have hmap : window start [] (extra + 1) = List.replicate (extra + 1) start := by
    apply List.ext_getElem <;> simp [window]
  rw [hmap]
  rfl

variable [Scalar α]

theorem held_bdf (start : Vec α) (n : Nat) : Held start [] n (bdf start n).stencils := by
  induction n with
  | zero => exact .nil
  | succ extra ih => exact .cons (by simp) (fun _ => slots_filled start extra) ih

theorem ready_bdf (start : Vec α) {n : Nat} (h : 0 < n) : Ready start [] n (bdf start n).stencils :=
  .of_length_lt (held_bdf start n) h

/-! ## Histories -/

variable [Journal α σ]

/-- The states accepted so far, newest first, the chain and the live state after
any attempts of a chain that was built from `start`.  Every attempt has the number
of the next step, and is made on the live state the one before it left. -/
inductive History (equation : StepEquation σ α) (size : Nat) (start : Vec α) :
    (accepted : List (Vec α)) → Chain α → (live : Vec α) → Prop
  | fresh : History equation size start [start] (bdf start size) start
  | completed {accepted : List (Vec α)} {chain : Chain α} {live : Vec α}
      (before : History equation size start accepted chain live) (call : Call σ α)
      (hstep : call.step = accepted.length) (env : σ)
      (hdone : (perform equation call chain live env).1.ending = .done) :
      History equation size start ((perform equation call chain live env).1.live :: accepted)
        (perform equation call chain live env).1.chain
        (perform equation call chain live env).1.live
  | undone {accepted : List (Vec α)} {chain : Chain α} {live : Vec α}
      (before : History equation size start accepted chain live) (call : Call σ α)
      (hstep : call.step = accepted.length) (env : σ)
      (hfail : (perform equation call chain live env).1.ending ≠ .done) :
      History equation size start accepted (perform equation call chain live env).1.chain
        (perform equation call chain live env).1.live

variable {equation : StepEquation σ α} {size : Nat} {start live : Vec α}
variable {accepted : List (Vec α)} {chain : Chain α}

theorem History.ready (h : History equation size start accepted chain live) (hsize : 0 < size) :
    ∃ past, accepted = live :: past ∧ Ready start past size chain.stencils := by
  induction h with
  | fresh => exact ⟨[], rfl, ready_bdf start hsize⟩
  | completed before call hstep env hdone ih =>
      obtain ⟨past, rfl, hready⟩ := ih
      have hstencils := (attempt_keeps equation call.solver hdone).2
      refine ⟨_, rfl, ?_⟩
      rw [perform, hstencils, hstep, List.length_cons]
      exact hready.pushed
  | undone before call hstep env hfail ih =>
      obtain ⟨past, rfl, hready⟩ := ih
      obtain ⟨hlive, hstencils⟩ := attempt_restores equation call.solver hfail
      refine ⟨past, by rw [perform, hlive], ?_⟩
      rw [perform, hstencils]
      exact hready

/-- What a chain of backward differentiation formulas solves.  At a history with
the accepted states `accepted`, newest first, the attempt of the next step is a
single solve of the formula over the newest `min step size` accepted states, from
the newest of them, on which the guess is called first if and only if the step is
not one of the first `size - 1`.  The slots of the stencil are the accepted states
before the live one, and the initial state where there are no more. -/
theorem History.attempt_solves (system : ContinuousSystem σ α) (hsize : 0 < size)
    (h : History (.bdf system) size start accepted chain live) (call : Call σ α)
    (hstep : call.step = accepted.length) :
    let point : StepPoint α := ⟨call.step, call.now + call.dt, call.dt⟩
    accepted.head? = some live ∧
      (∃ stencil : Stencil α, stencil.slots = accepted.take (min call.step size) ∧
        perform (.bdf system) call chain live = (do
          noteAll (openingEvents call.now point chain)
          let solved ←
            if size ≤ call.step then
              solveStep call.solver ((StepEquation.bdf system).system point stencil)
                call.guess point live
            else call.solver.solve ((StepEquation.bdf system).system point stencil) live
          noteAll (closingEventsAll live point solved chain)
          pure (closed live point solved chain))) ∧
      ∀ lag < size, chain.head?.bind (·.stencil.get? lag) =
        some (accepted.tail.getD lag start) := by
  intro point
  obtain ⟨past, rfl, hready⟩ := h.ready hsize
  rw [List.length_cons] at hstep
  refine ⟨rfl, ?_, ?_⟩
  · obtain ⟨member, hsolving, hslots⟩ := hready.solving
    obtain ⟨k, hk⟩ : ∃ k, min (past.length + 1) size = k + 1 :=
      ⟨min (past.length + 1) size - 1, by omega⟩
    have hrotated : (member.stencil.rotate live).slots = (live :: past).take (k + 1) := by
      rw [← window_eq_take start (by simp; omega), window_cons, ← hk, ← hslots]
      rfl
    refine ⟨member.stencil.rotate live, by rw [hstep, hk, hrotated], ?_⟩
    rw [perform, attempt_of_solving _ _ (hstep ▸ hsolving), hready.seed_eq]
    by_cases hfull : size ≤ call.step
    · simp only [if_pos hfull]
      rfl
    · simp only [if_neg hfull]
      rfl
  · intro lag hlag
    obtain ⟨first, rest, hstencils, hslots⟩ := hready.leading
    obtain ⟨member, auxiliary, rfl⟩ : ∃ member auxiliary, chain = member :: auxiliary := by
      cases chain with
      | nil => cases hstencils
      | cons member auxiliary => exact ⟨member, auxiliary, rfl⟩
    obtain ⟨rfl, -⟩ := List.cons.inj hstencils
    rw [List.head?_cons, Option.bind_some, Stencil.get?, hslots, getElem?_window start past hlag,
      List.tail_cons]

def resting : ContinuousSystem Unit Float where
  velocityBuffer := #[0.0]
  jacobianBuffer := .ofFn 1 1 fun _ _ => 0.0
  velocity _ _ _ := pure (.done #[0.0])
  jacobian _ _ buffer := pure (.done buffer)

theorem attempt_solves_at_second_step :
    ∃ chain live, History (.bdf resting) 2 #[1.0] [#[1.0], #[1.0]] chain live ∧
      ∃ stencil : Stencil Float, stencil.slots = [#[1.0], #[1.0]] ∧
        perform (.bdf resting) ⟨content, Guess.none, 0.5, 0.5, 2⟩ chain live = (do
          noteAll (openingEvents 0.5 ⟨2, 0.5 + 0.5, 0.5⟩ chain)
          let solved ← solveStep content
            ((StepEquation.bdf resting).system ⟨2, 0.5 + 0.5, 0.5⟩ stencil) Guess.none
            ⟨2, 0.5 + 0.5, 0.5⟩ live
          noteAll (closingEventsAll live ⟨2, 0.5 + 0.5, 0.5⟩ solved chain)
          pure (closed live ⟨2, 0.5 + 0.5, 0.5⟩ solved chain)) := by
  have hfirst : History (.bdf resting) 2 #[1.0] [#[1.0], #[1.0]] _ _ :=
    .completed .fresh ⟨content, Guess.none, 0.0, 0.5, 1⟩ rfl () rfl
  have hsecond := (hfirst.attempt_solves resting (by decide)
    ⟨content, Guess.none, 0.5, 0.5, 2⟩ rfl).2.1
  exact ⟨_, _, hfirst, hsecond⟩

end Chain

end TimeStepping
