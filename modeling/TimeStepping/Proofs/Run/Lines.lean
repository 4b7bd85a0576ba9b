import TimeStepping.Proofs.Implicit.Lines
import TimeStepping.Proofs.Run.Atomicity
import TimeStepping.Proofs.Run.TargetTime

/-!
# Runs along a line

Under a constant velocity the states of a run to a target time are positions along a
line, and the accepted time steps alone decide which ones.  The last of them is shortened
to the end, so a formula over more than one state leaves the solution there, unless the
length asked for divides the interval.
-/

namespace TimeStepping

open TimeGrid

namespace Run

variable {σ : Type}

/-- A step that is shortened to the end arrives there. -/
theorem add_clamp (time dt final : ℝ) :
    (if reachesEnd time dt final then final else time + dt) = time + clamp time dt final := by
  unfold clamp
  split
  · ring
  · rfl

/-- What a run with time steps of its own will have accepted once it has shown its next step. -/
def Turn.pending : Turn ℝ ℝ → List ℝ
  | .observe _ dt => [dt]
  | _ => []

/-- The next step is as long as asked for, or shortened to the end. -/
def Turn.Fits (final time : ℝ) : Turn ℝ ℝ → Prop
  | .begin => True
  | .attempt size dt => dt = clamp time size final
  | .observe size dt => dt = clamp time size final

variable {n size : Nat} {u c : Fin n → ℝ} {start final : ℝ}

/-- A run on the line through `u` has accepted steps of the given lengths, and shown
those in `seen`, both newest first. -/
structure OnPath (size : Nat) (u c : Fin n → ℝ) (start : ℝ) (accepted seen : List ℝ)
    (trace : Trace (Chain ℝ × σ) ℝ ℝ) (here : Position (Chain ℝ × σ) ℝ) : Prop where
  lengths : trace.acceptances.map (·.dt) = accepted.reverse
  shown : trace.shown.map (·.2) =
    (path size seen).reverse.map fun point => (start + point.1, along u c point.2)
  step : here.step = seen.length
  time : here.time = start + seen.sum
  ready : ∃ past, here.live :: past = (path size accepted).map (fun point => along u c point.2) ∧
    Chain.Ready (along u c 0) past size here.env.1.stencils

theorem along_eq_iff {elapsed position : ℝ} :
    Vec.axpy elapsed (.ofCoords c) (.ofCoords u) = .ok (along u c position) ↔
      Vec.ofCoords c = Vec.zeros n ∨ position = elapsed := by
  rw [Vec.axpy_ofCoords, along, Except.ok.injEq, Vec.ofCoords_injective.eq_iff,
    Vec.zeros_eq_ofCoords, Vec.ofCoords_injective.eq_iff, add_left_inj, ← sub_eq_zero, ← sub_smul,
    smul_eq_zero, sub_eq_zero, or_comm, eq_comm (a := position)]

/-- What is shown up to the step `count` is on the solution through `u`, if and only if
there is one past state only, or the velocity is zero, or the first `count` time steps
are the same. -/
theorem shown_on_line_iff (hpos : 0 < size) (hle : size ≤ 3) {trace : Trace (Chain ℝ × σ) ℝ ℝ}
    {dts : List ℝ} (hlengths : trace.acceptances.map (·.dt) = dts.reverse)
    (hshown : trace.shown.map (·.2) =
      (path size dts).reverse.map fun point => (start + point.1, along u c point.2))
    (count : Nat) :
    (∀ shown ∈ trace.shown.take (count + 1),
      Vec.axpy (shown.2.1 - start) (.ofCoords c) (.ofCoords u) = .ok shown.2.2) ↔
      size = 1 ∨ Vec.ofCoords c = Vec.zeros n ∨
        ∀ dt ∈ (trace.acceptances.map (·.dt)).take count,
          ∀ dt' ∈ (trace.acceptances.map (·.dt)).take count, dt = dt' := by
  let kept := (dts.reverse.take count).reverse
  have htaken : (trace.shown.take (count + 1)).map (·.2) =
      (path size kept).reverse.map fun point => (start + point.1, along u c point.2) := by
    rw [List.map_take, hshown, ← List.map_take, ← take_path, List.reverse_reverse]
  have hline : (∀ shown ∈ trace.shown.take (count + 1),
      Vec.axpy (shown.2.1 - start) (.ofCoords c) (.ofCoords u) = .ok shown.2.2) ↔
        ∀ point ∈ path size kept, Vec.ofCoords c = Vec.zeros n ∨ point.2 = point.1 := by
    have hmap := List.forall_mem_map (f := fun shown : Nat × ℝ × Vec ℝ => shown.2)
      (P := fun shown => Vec.axpy (shown.1 - start) (.ofCoords c) (.ofCoords u) = .ok shown.2)
      (l := trace.shown.take (count + 1))
    rw [← hmap, htaken, List.forall_mem_map]
    simp only [List.mem_reverse, add_sub_cancel_left, along_eq_iff]
  have hkept : kept = ((trace.acceptances.map (·.dt)).take count).reverse := by rw [hlengths]
  rw [hline]
  by_cases hzero : Vec.ofCoords c = Vec.zeros n
  · simp [hzero]
  · simp only [hzero, false_or]
    rw [path_exact_iff hpos hle, hkept]
    simp only [List.mem_reverse]

section Deeds

variable {accepted seen dts : List ℝ} {trace : Trace (Chain ℝ × σ) ℝ ℝ}
  {here : Position (Chain ℝ × σ) ℝ} {dt : ℝ}

theorem OnPath.asked (h : OnPath size u c start accepted seen trace here) (step : Nat)
    (time answer : ℝ) (env : σ) :
    OnPath size u c start accepted seen (trace ++ [.asked step time answer])
      { here with env := (here.env.1, env) } := by
  refine ⟨?_, ?_, h.step, h.time, h.ready⟩
  · rw [Trace.acceptances_asked]
    exact h.lengths
  · rw [Trace.shown_asked]
    exact h.shown

theorem OnPath.observed (h : OnPath size u c start (dt :: dts) dts trace here) {next : ℝ}
    (hnext : next = here.time + dt) (env : σ) :
    OnPath size u c start (dt :: dts) (dt :: dts)
      (trace ++ [.observed (here.step + 1) next here.live])
      ⟨here.step + 1, next, here.live, (here.env.1, env)⟩ := by
  obtain ⟨past, hline, hready⟩ := h.ready
  obtain ⟨hlive, -⟩ := List.cons.inj hline
  have htime : next = start + (dt :: dts).sum := by
    rw [hnext, h.time, List.sum_cons]
    ring
  refine ⟨?_, ?_, congrArg Nat.succ h.step, htime, past, hline, hready⟩
  · rw [Trace.acceptances_observed]
    exact h.lengths
  · rw [Trace.shown_observed, List.map_append, h.shown, path, List.reverse_cons, List.map_append]
    exact congrArg (_ ++ [·]) (Prod.ext htime hlive)

end Deeds

variable [Journal ℝ σ] {system : ContinuousSystem σ ℝ} {solver : Solver σ ℝ}

theorem OnPath.attempted (hsteady : system.Steady (.ofCoords c))
    (hexact : solver.Exact (.bdf system)) (hpos : 0 < size) (hle : size ≤ 3) {dts : List ℝ}
    {trace : Trace (Chain ℝ × σ) ℝ ℝ} {here : Position (Chain ℝ × σ) ℝ}
    (h : OnPath size u c start dts dts trace here) (dt : ℝ) :
    let trial := (Chain.steppable (.bdf system) solver size).trial here.live here.time dt
      (here.step + 1) here.env
    trial.outcome.ending = .done →
      OnPath size u c start (dt :: dts) dts (trace ++ [.attempted trial]) (here.tried trial) := by
  intro trial hdone
  obtain ⟨past, hline, hready⟩ := h.ready
  have hpositions : here.live :: past = ((path size dts).map (·.2)).map (along u c) := by
    rw [List.map_map]
    exact hline
  have hstep : here.step = past.length := by
    have hlength := congrArg List.length hline
    rw [List.length_cons, List.length_map, length_path] at hlength
    exact h.step.trans (Nat.succ.inj hlength).symm
  have hattempt : (Chain.attempt (.bdf system) solver here.env.1 Guess.none here.live here.time dt
      (past.length + 1) here.env.2).1.ending = .done := by
    rw [← hstep]
    exact hdone
  have hnext := hready.step_along hsteady hexact hpos hle hpositions here.time dt here.env.2
    hattempt
  rw [← hstep] at hnext
  refine ⟨?_, ?_, h.step, h.time, here.live :: past, ?_, hnext.2⟩
  · rw [Trace.acceptances_of_done _ hdone, List.map_append, h.lengths]
    exact List.reverse_cons.symm
  · rw [Trace.shown_attempted]
    exact h.shown
  · rw [hline]
    exact congrArg (· :: _) hnext.1

theorem Course.on_path (hsteady : system.Steady (.ofCoords c))
    (hexact : solver.Exact (.bdf system)) (hpos : 0 < size) (hle : size ≤ 3)
    {policy : Policy σ ℝ ℝ} {observer : Observer σ ℝ} {env : σ}
    {trace : Trace (Chain ℝ × σ) ℝ ℝ} {here : Position (Chain ℝ × σ) ℝ} {turn : Turn ℝ ℝ}
    (h : Course
      (Plan.toTime (Chain.steppable (.bdf system) solver size) (observer.beside (Chain ℝ))
        (policy.beside (Chain ℝ)) final)
      start (along u c 0) (Chain.bdf (along u c 0) size, env) trace here turn) :
    ∃ dts, OnPath size u c start (turn.pending ++ dts) dts trace here ∧
      turn.Fits final here.time := by
  induction h with
  | opened =>
      refine ⟨[], ⟨rfl, ?_, rfl, ?_, [], rfl, Chain.ready_bdf _ hpos⟩, trivial⟩
      · simp [path, Trace.shown]
      · simp
  | unasked before hahead h ih => cases h
  | asked before hahead h hcheck ih =>
      obtain ⟨dts, hpath, -⟩ := ih
      exact ⟨dts, hpath.asked .., rfl⟩
  | retried before hfailed hagain ih => cases hagain
  | accepted before hdone ih =>
      obtain ⟨dts, hpath, hfits⟩ := ih
      exact ⟨dts, hpath.attempted hsteady hexact hpos hle _ hdone, hfits⟩
  | @observed trace here answer dt before ih =>
      obtain ⟨dts, hpath, hfits⟩ := ih
      have hdt : dt = clamp here.time answer final := hfits
      have hnext : (if reachesEnd here.time answer final then final else here.time + answer) =
          here.time + dt := by rw [add_clamp, hdt]
      exact ⟨dt :: dts, hpath.observed hnext _, trivial⟩

/-- What the trace of a run that ended tells of its path. -/
theorem Ended.on_path (hsteady : system.Steady (.ofCoords c))
    (hexact : solver.Exact (.bdf system)) (hpos : 0 < size) (hle : size ≤ 3)
    {policy : Policy σ ℝ ℝ} {observer : Observer σ ℝ} {env : σ} {last : Chain ℝ × σ}
    {trace : Trace (Chain ℝ × σ) ℝ ℝ} {live : Vec ℝ} {ending : RunEnding ℝ Nat}
    (h : Ended
      (Plan.toTime (Chain.steppable (.bdf system) solver size) (observer.beside (Chain ℝ))
        (policy.beside (Chain ℝ)) final)
      start (along u c 0) (Chain.bdf (along u c 0) size, env) trace live last ending) :
    ∃ dts, trace.acceptances.map (·.dt) = dts.reverse ∧
      trace.shown.map (·.2) =
        (path size dts).reverse.map fun point => (start + point.1, along u c point.2) := by
  cases h with
  | finished before hlast =>
      obtain ⟨dts, hpath, -⟩ := before.on_path hsteady hexact hpos hle
      exact ⟨dts, hpath.lengths, hpath.shown⟩
  | refused before hahead hcheck =>
      obtain ⟨dts, hpath, -⟩ := before.on_path hsteady hexact hpos hle
      rw [Trace.acceptances_asked, Trace.shown_asked]
      exact ⟨dts, hpath.lengths, hpath.shown⟩
  | failed before hfailed hagain =>
      obtain ⟨dts, hpath, -⟩ := before.on_path hsteady hexact hpos hle
      rw [Trace.acceptances_of_undone _ (by simp [hfailed]), Trace.shown_attempted]
      exact ⟨dts, hpath.lengths, hpath.shown⟩
  | fault before hfault =>
      obtain ⟨dts, hpath, -⟩ := before.on_path hsteady hexact hpos hle
      rw [Trace.acceptances_of_undone _ (by simp [hfault]), Trace.shown_attempted]
      exact ⟨dts, hpath.lengths, hpath.shown⟩
  | @unfinished trace here turn before hturn =>
      obtain ⟨dts, hpath, -⟩ := before.on_path hsteady hexact hpos hle
      cases turn with
      | observe answer dt => exact absurd rfl (hturn answer dt)
      | begin => exact ⟨dts, hpath.lengths, hpath.shown⟩
      | attempt answer dt => exact ⟨dts, hpath.lengths, hpath.shown⟩

/-- The trace of a run to a target time on the line through `u`; a refused run has none. -/
theorem toTime_on_path (hsteady : system.Steady (.ofCoords c))
    (hexact : solver.Exact (.bdf system)) (hpos : 0 < size) (hle : size ≤ 3)
    (policy : Policy σ ℝ ℝ) (observer : Observer σ ℝ) (fuel : Nat) (start final : ℝ) (env : σ) :
    let trace := (toTime fuel ((Chain.steppable (.bdf system) solver size).traced ℝ)
      (policy.beside (Chain ℝ)).traced ((observer.beside (Chain ℝ)).traced ℝ) start final
      (along u c 0) ([], Chain.bdf (along u c 0) size, env)).2.1
    trace = [] ∨ ∃ dts, trace.acceptances.map (·.dt) = dts.reverse ∧
      trace.shown.map (·.2) =
        (path size dts).reverse.map fun point => (start + point.1, along u c point.2) := by
  intro trace
  cases hinterval : checkInterval start final with
  | error cause =>
      refine .inl ?_
      simp only [trace, toTime, hinterval]
      rfl
  | ok _ =>
      refine .inr ?_
      have hended := (toTime_ended start (along u c 0) (Chain.bdf (along u c 0) size, env)
        (Chain.steppable (.bdf system) solver size) (observer.beside (Chain ℝ))
        (policy.beside (Chain ℝ)) hinterval fuel).holds _ rfl
      exact hended.on_path hsteady hexact hpos hle

/-- Consistency of the backward differentiation formulas.  At a constant velocity and
with a solver that leaves exact roots, a run to a target time is on the solution up to
the step `count`, whatever was asked for and wherever the last step was shortened, if
and only if its formula is the one over a single state, or nothing moves, or the first
`count` steps were equally long. -/
theorem follows_line_iff_equal_steps (hpos : 0 < size) (hle : size ≤ 3) {b initial : Vec ℝ}
    (hsteady : system.Steady b) (hsize : initial.size = b.size)
    (hexact : solver.Exact (.bdf system)) (policy : Policy σ ℝ ℝ) (observer : Observer σ ℝ)
    (fuel : Nat) (start final : ℝ) (env : σ) (count : Nat) :
    let trace := (toTime fuel ((Chain.steppable (.bdf system) solver size).traced ℝ)
      (policy.beside (Chain ℝ)).traced ((observer.beside (Chain ℝ)).traced ℝ) start final
      initial ([], Chain.bdf initial size, env)).2.1
    let dts := (trace.acceptances.map (·.dt)).take count
    (∀ shown ∈ trace.shown.take (count + 1),
        Vec.axpy (shown.2.1 - start) b initial = .ok shown.2.2) ↔
      size = 1 ∨ b = Vec.zeros b.size ∨ ∀ dt ∈ dts, ∀ dt' ∈ dts, dt = dt' := by
  intro trace dts
  obtain ⟨n, hn⟩ : ∃ n, b.size = n := ⟨b.size, rfl⟩
  obtain ⟨c, rfl⟩ := Vec.exists_ofCoords hn
  obtain ⟨u, rfl⟩ := Vec.exists_ofCoords (hsize.trans hn)
  have hinitial : Vec.ofCoords u = along u c 0 := by rw [along, zero_smul, zero_add]
  have hpath := toTime_on_path (u := u) hsteady hexact hpos hle policy observer fuel start final env
  rw [← hinitial] at hpath
  rw [Vec.size_ofCoords]
  rcases hpath with hnone | ⟨lengths, hlengths, hshown⟩
  · have htrace : trace = [] := hnone
    simp [dts, htrace, Trace.shown, Trace.acceptances]
  · exact shown_on_line_iff hpos hle hlengths hshown count

/-! ## A run that leaves the line -/

/-- One unknown that moves at unit velocity. -/
noncomputable def drifting : ContinuousSystem Unit ℝ where
  velocityBuffer := Vec.zeros 1
  jacobianBuffer := Mat.zeros 1 1
  velocity _ _ _ := pure (.done (.ofCoords ![1]))
  jacobian _ _ _ := pure (.done (Mat.zeros 1 1))

theorem drifting_steady : drifting.Steady (.ofCoords ![1]) where
  size := by simp [drifting, Vec.zeros_eq_ofCoords]
  velocity _ _ _ := rfl

/-- The residual at `root` is zero. -/
def IsRoot (system : AlgebraicSystem Unit ℝ) (root : Vec ℝ) : Prop :=
  (system.residual root system.residualBuffer ()).1 =
    .done (Vec.zeros system.residualBuffer.size)

open Classical in
/-- A solver that finds a root wherever there is one. -/
noncomputable def rooting : Solver Unit ℝ where
  solve system start :=
    if h : ∃ root, IsRoot system root then pure (.done h.choose)
    else pure ⟨start, .fault .abandoned⟩

theorem rooting_of_root {system : AlgebraicSystem Unit ℝ} (h : ∃ root, IsRoot system root)
    (start : Vec ℝ) : rooting.solve system start () = (.done h.choose, ()) := by
  simp only [rooting, dif_pos h]
  rfl

theorem rooting_exact (equation : StepEquation Unit ℝ) : rooting.Exact equation := by
  intro point stencil start env solved hdone
  by_cases h : ∃ root, IsRoot (equation.system point stencil) root
  · have hsolved : solved = (.done h.choose, ()) := rooting_of_root h start
    rw [hsolved]
    exact h.choose_spec
  · have hsolved : solved = (⟨start, .fault .abandoned⟩, ()) := by
      simp only [solved, rooting, dif_neg h]
      rfl
    rw [hsolved] at hdone
    cases hdone

/-- With this solver, a step on a history along a line completes. -/
theorem rooting_step {n : Nat} {u c : Fin n → ℝ} {system : ContinuousSystem Unit ℝ}
    (hsteady : system.Steady (.ofCoords c)) (hpos : 0 < size) (hle : size ≤ 3)
    {chain : Chain ℝ} {initial live : Vec ℝ} {past : List (Vec ℝ)} {positions : List ℝ}
    (hready : Chain.Ready initial past size chain.stencils)
    (hpositions : live :: past = positions.map (along u c)) (now dt : ℝ) :
    ∃ after : Chain ℝ,
      (Chain.steppable (.bdf system) rooting size).step live now dt (past.length + 1)
          (chain, ()) = (.done (along u c (reach size dt positions)), after, ()) ∧
        Chain.Ready initial (live :: past) size after.stencils := by
  obtain ⟨stencil, before, hslots, hending, -⟩ :=
    hready.attempt_closed (.bdf system) rooting hpos live now dt ()
  have hbuffer : system.velocityBuffer.size = n := hsteady.size.trans (Vec.size_ofCoords c)
  have hroot : ∃ root, IsRoot
      ((StepEquation.bdf system).system ⟨past.length + 1, now + dt, dt⟩ stencil) root := by
    refine ⟨along u c (reach size dt positions), ?_⟩
    change _ = Outcome.done (Vec.zeros system.velocityBuffer.size)
    rw [hbuffer]
    exact (root_iff_reach hsteady hpos hle hslots hpositions).2 rfl
  have hdone : (Chain.attempt (.bdf system) rooting chain Guess.none live now dt (past.length + 1)
      ()).1.ending = .done := by
    rw [← Ending.isDone_iff, hending, rooting_of_root hroot]
    rfl
  obtain ⟨hlive, hafter⟩ := hready.step_along hsteady (rooting_exact _) hpos hle hpositions now dt
    () hdone
  refine ⟨_, ?_, hafter⟩
  change ((⟨_, _⟩ : Outcome ℝ (Vec ℝ)), _) = _
  rw [hlive, hdone]
  rfl

/-- A step of unit length, and one of any length from there. -/
theorem drifting_steps (dt : ℝ) :
    let stepper := Chain.steppable (.bdf drifting) rooting 2
    ∃ middle last : Chain ℝ,
      stepper.step (.ofCoords ![0]) 0 1 1 (Chain.bdf (.ofCoords ![0]) 2, ()) =
        (.done (.ofCoords ![1]), middle, ()) ∧
      stepper.step (.ofCoords ![1]) 1 dt 2 (middle, ()) =
        (.done (.ofCoords ![reach 2 dt [1, 0]]), last, ()) := by
  have halong (position : ℝ) : along ![0] ![1] position = .ofCoords ![position] := by
    rw [along]
    congr 1
    funext i
    obtain rfl : i = 0 := Subsingleton.elim i 0
    simp
  have hstart : [Vec.ofCoords ![(0 : ℝ)]] = [0].map (along ![0] ![1]) := by simp [halong]
  have hnext : [Vec.ofCoords ![(1 : ℝ)], .ofCoords ![0]] = [1, 0].map (along ![0] ![1]) := by
    simp [halong]
  have hready := Chain.ready_bdf (.ofCoords ![(0 : ℝ)]) two_pos
  obtain ⟨middle, hfirst, hmiddle⟩ :=
    rooting_step drifting_steady two_pos (by norm_num) hready hstart 0 1
  obtain ⟨last, hsecond, -⟩ :=
    rooting_step drifting_steady two_pos (by norm_num) hmiddle hnext 1 dt
  rw [reach_start two_pos, halong] at hfirst
  rw [halong] at hsecond
  exact ⟨middle, last, hfirst, hsecond⟩

/-- What a run from rest in unit steps accepts and shows, if it arrives in its second step. -/
theorem toTime_drifting {dt : ℝ} (hahead : endAhead 0 final ∧ endAhead 1 final)
    (hwhole : clamp 0 1 final = 1) (hrest : clamp 1 1 final = dt) (hmiddle : arrival 0 1 final = 1)
    (hlast : arrival 1 dt final = final) :
    let trace := (toTime 2 ((Chain.steppable (.bdf drifting) rooting 2).traced ℝ)
      ((always 1).beside (Chain ℝ)).traced ((silent.beside (Chain ℝ)).traced ℝ) 0 final
      (.ofCoords ![0]) ([], Chain.bdf (.ofCoords ![0]) 2, ())).2.1
    trace.acceptances.map (·.dt) = [1, dt] ∧
      trace.shown = [(0, 0, .ofCoords ![0]), (1, 1, .ofCoords ![1]),
        (2, final, .ofCoords ![reach 2 dt [1, 0]])] := by
  intro trace
  have hinterval : checkInterval 0 final = .ok () :=
    checkInterval_of_le (by linarith [endAhead_iff.1 hahead.1, tolerance_pos final])
  have hcheck (step : Nat) : checkDt (1 : ℝ) step = .ok () := by simp [checkDt]
  have hasked (step : Nat) (time : ℝ) (chain : Chain ℝ) :
      (always (1 : ℝ)).beside (Chain ℝ) step time (chain, ()) = (1, chain, ()) := rfl
  obtain ⟨middle, last, hfirst, hsecond⟩ := drifting_steps dt
  let begun := toTimeFrom ((Chain.steppable (.bdf drifting) rooting 2).traced ℝ)
    ((always 1).beside (Chain ℝ)).traced ((silent.beside (Chain ℝ)).traced ℝ) final 2 0 0
    (.ofCoords ![0]) ([.observed 0 0 (.ofCoords ![0])], Chain.bdf (.ofCoords ![0]) 2, ())
  have hbegun : trace = begun.2.1 := by
    simp only [trace, toTime, hinterval]
    rfl
  have hrun : begun = _ :=
    (toTimeFrom_accepted 1 hahead.1 (hasked ..) (hcheck 1) hwhole hmiddle hfirst _).trans
      (toTimeFrom_accepted 0 hahead.2 (hasked ..) (hcheck 2) hrest hlast hsecond _)
  rw [hbegun, hrun]
  simp only [Steppable.trial, hfirst, hsecond, zero_add, Nat.reduceAdd]
  exact ⟨rfl, rfl⟩

/-- The run to `2` takes two equal steps, and follows the line. -/
theorem equal_steps_follow_line :
    let trace := (toTime 2 ((Chain.steppable (.bdf drifting) rooting 2).traced ℝ)
      ((always 1).beside (Chain ℝ)).traced ((silent.beside (Chain ℝ)).traced ℝ) 0 2
      (.ofCoords ![0]) ([], Chain.bdf (.ofCoords ![0]) 2, ())).2.1
    trace.acceptances.map (·.dt) = [1, 1] ∧ trace.shown.length = 3 ∧
      ∀ shown ∈ trace.shown.take 3,
        Vec.axpy (shown.2.1 - 0) (.ofCoords ![1]) (.ofCoords ![0]) = .ok shown.2.2 := by
  intro trace
  have htol : tolerance (2 : ℝ) = 2e-12 := by norm_num [tolerance_real]
  have hahead : endAhead (0 : ℝ) 2 ∧ endAhead (1 : ℝ) 2 := by norm_num [endAhead_iff, htol]
  have hclamp : clamp 0 1 (2 : ℝ) = 1 ∧ clamp 1 1 (2 : ℝ) = 1 := by
    norm_num [clamp, reachesEnd_iff, htol]
  have harrives : arrival 0 1 (2 : ℝ) = 1 ∧ arrival 1 1 (2 : ℝ) = 2 := by
    norm_num [arrival, htol]
  obtain ⟨hlengths, hshown⟩ := toTime_drifting hahead hclamp.1 hclamp.2 harrives.1 harrives.2
  have hsize : (Vec.ofCoords ![(0 : ℝ)]).size = (Vec.ofCoords ![(1 : ℝ)]).size := by
    rw [Vec.size_ofCoords, Vec.size_ofCoords]
  have hiff := follows_line_iff_equal_steps two_pos (by norm_num) drifting_steady hsize
    (rooting_exact _) (always 1) silent 2 0 2 () 2
  refine ⟨hlengths, congrArg List.length hshown, hiff.2 (.inr (.inr ?_))⟩
  rw [hlengths]
  simp

/-- The run to `3 / 2` shortens its second step, and leaves the line with it: the formula
over two states passes the solution by a sixth. -/
theorem unequal_steps_leave_line :
    let trace := (toTime 2 ((Chain.steppable (.bdf drifting) rooting 2).traced ℝ)
      ((always 1).beside (Chain ℝ)).traced ((silent.beside (Chain ℝ)).traced ℝ) 0 (3 / 2)
      (.ofCoords ![0]) ([], Chain.bdf (.ofCoords ![0]) 2, ())).2.1
    drifting.Steady (.ofCoords ![1]) ∧ rooting.Exact (.bdf drifting) ∧
      (2, 3 / 2, .ofCoords ![5 / 3]) ∈ trace.shown ∧
      Vec.axpy (3 / 2 - 0) (.ofCoords ![1]) (.ofCoords ![0]) ≠ .ok (.ofCoords ![(5 : ℝ) / 3]) := by
  intro trace
  refine ⟨drifting_steady, rooting_exact _, ?_, ?_⟩
  · have htol : tolerance (3 / 2 : ℝ) = 1e-12 * (3 / 2) := by norm_num [tolerance_real]
    have hahead : endAhead (0 : ℝ) (3 / 2) ∧ endAhead (1 : ℝ) (3 / 2) := by
      norm_num [endAhead_iff, htol]
    have hclamp : clamp 0 1 (3 / 2 : ℝ) = 1 ∧ clamp 1 1 (3 / 2 : ℝ) = 1 / 2 := by
      norm_num [clamp, reachesEnd_iff, htol]
    have harrives : arrival 0 1 (3 / 2 : ℝ) = 1 ∧ arrival 1 (1 / 2) (3 / 2 : ℝ) = 3 / 2 := by
      norm_num [arrival, htol]
    have hfar : reach 2 (1 / 2) [1 + 0, 0] = 5 / 3 := by
      rw [reach_two (1 / 2) 1 0 [] rfl]
      norm_num
    obtain ⟨-, hshown⟩ := toTime_drifting hahead hclamp.1 hclamp.2 harrives.1 harrives.2
    rw [add_zero] at hfar
    rw [hfar] at hshown
    simp [trace, hshown]
  · rw [Vec.axpy_ofCoords, Ne, Except.ok.injEq, Vec.ofCoords_injective.eq_iff]
    intro h
    have hvalue := congrFun h 0
    norm_num at hvalue

end Run

end TimeStepping
