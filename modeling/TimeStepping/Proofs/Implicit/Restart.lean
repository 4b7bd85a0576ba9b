import TimeStepping.Proofs.Implicit.Session
import TimeStepping.Proofs.Run.Tandem

/-!
# Starting over

A chain of backward differentiation formulas that starts again from step 1 makes
no use of what it did before.  After `k` accepted steps every member holds the same
`k` newest states as in a newly built chain, and the member that takes the next
step has at most one slot more, which the rotation of the live state drops.
-/

namespace TimeStepping

variable {σ α β : Type}

theorem Stencil.take_rotate (stencil : Stencil α) (live : Vec α) (k : Nat) :
    (stencil.rotate live).slots.take (k + 1) =
      live :: (stencil.slots.take k).take (stencil.size - 1) := by
  change live :: stencil.slots.dropLast.take k = _
  rw [List.dropLast_eq_take, List.take_take, List.take_take, length_slots, Nat.min_comm]

/-- Members of the same scheme with the newest `k` states in common. -/
structure Member.Agree (k : Nat) (first second : Member α) : Prop where
  name : first.name = second.name
  size : first.stencil.size = second.stencil.size
  slots : first.stencil.slots.take k = second.stencil.slots.take k

namespace Member.Agree

variable {k : Nat} {first second : Member α}

theorem take_rotate (h : first.Agree k second) (live : Vec α) :
    (first.stencil.rotate live).slots.take (k + 1) =
      (second.stencil.rotate live).slots.take (k + 1) := by
  rw [Stencil.take_rotate, Stencil.take_rotate, h.slots, h.size]

/-- A member with at most one state beyond those in common drops it in the next rotation. -/
theorem rotate_eq (h : first.Agree k second) (hsize : first.stencil.size ≤ k + 1)
    (live : Vec α) : first.stencil.rotate live = second.stencil.rotate live := by
  have hslots := h.take_rotate live
  rw [List.take_of_length_le (by simpa using hsize),
    List.take_of_length_le (by simpa [← h.size] using hsize)] at hslots
  exact congrArg (Stencil.mk live) (List.cons.inj hslots).2

/-- Members that have all states in common have as many in common as one likes. -/
theorem of_size_le (h : first.Agree k second) (hsize : first.stencil.size ≤ k) (k' : Nat) :
    first.Agree k' second := by
  have hslots := h.slots
  rw [List.take_of_length_le (by simpa using hsize),
    List.take_of_length_le (by simpa [← h.size] using hsize)] at hslots
  exact ⟨h.name, h.size, by rw [hslots]⟩

end Member.Agree

namespace Chain

/-- Chains of the same schemes, each with one state more than the one behind it,
whose members have the newest `k` states in common. -/
inductive Agree (k : Nat) : Chain α → Chain α → Prop
  | nil : Agree k [] []
  | cons {first second : Member α} {auxiliary auxiliary' : Chain α}
      (hfirst : first.Agree k second) (hsize : first.stencil.size = stencilSize auxiliary + 1)
      (hrest : Agree k auxiliary auxiliary') : Agree k (first :: auxiliary) (second :: auxiliary')

/-- How many steps are completed after an attempt at the one after `k` completed steps. -/
def completedAfter (k : Nat) (ending : Ending α) : Nat :=
  if ending.isDone then k + 1 else k

/-- The names and sizes of the schemes. -/
def layout (chain : Chain α) : List (String × Nat) :=
  chain.map fun member => (member.name, member.stencil.size)

theorem stencilSize_eq_of_layout_eq {chain chain' : Chain α} (h : chain.layout = chain'.layout) :
    stencilSize chain = stencilSize chain' := by
  cases chain <;> cases chain' <;> simp_all [layout, stencilSize]

/-- The calls are numbered on from `k` completed steps, and every step is repeated
until it is completed. -/
def Numbered : (k : Nat) → List (Call σ α × Attempt α) → Prop
  | _, [] => True
  | k, record :: rest =>
      record.1.step = k + 1 ∧ Numbered (completedAfter k record.2.ending) rest

/-- What the caller sees of a session: the live states and the endings. -/
def outcomes (records : List (Call σ α × Attempt α)) : List (Vec α × Ending α) :=
  records.map fun record => (record.2.live, record.2.ending)

theorem outcomes_cons (record : Call σ α × Attempt α) (records : List (Call σ α × Attempt α)) :
    outcomes (record :: records) = (record.2.live, record.2.ending) :: outcomes records :=
  rfl

/-! ## Closing one member -/

theorem layout_settle (member : Member α) (live : Vec α) (point : StepPoint α)
    (startingUp : Bool) (inner : Attempt α) :
    (settle (member.entered point) (member.stencil.rotate live) startingUp inner).chain.layout =
      (member.name, member.stencil.size) :: inner.chain.layout := by
  unfold settle
  cases inner.ending <;> simp [layout, Member.entered]

theorem settle_agree {k : Nat} {first second : Member α} (h : first.Agree k second)
    (live : Vec α) (point : StepPoint α) (startingUp : Bool) {inner inner' : Attempt α}
    (hlive : inner.live = inner'.live) (hending : inner.ending = inner'.ending)
    (hsize : first.stencil.size = stencilSize inner.chain + 1)
    (hchain : Agree (completedAfter k inner.ending) inner.chain inner'.chain) :
    let result := settle (first.entered point) (first.stencil.rotate live) startingUp inner
    let result' := settle (second.entered point) (second.stencil.rotate live) startingUp inner'
    result.live = result'.live ∧ result.ending = result'.ending ∧
      Agree (completedAfter k inner.ending) result.chain result'.chain := by
  have hback : ∀ member : Member α,
      (member.stencil.rotate live).unrotate (member.entered point).recovery = member.stencil :=
    fun member => Stencil.unrotate_rotate member.stencil live
  unfold settle
  rw [← hending]
  cases hinner : inner.ending with
  | done =>
      rw [hinner] at hchain
      exact ⟨hlive, rfl, .cons ⟨h.name, by simpa using h.size, h.take_rotate live⟩
        (by simpa using hsize) hchain⟩
  | failed cause =>
      rw [hinner] at hchain
      refine ⟨rfl, rfl, ?_⟩
      simp only [hback]
      exact .cons ⟨h.name, h.size, h.slots⟩ hsize hchain
  | fault cause =>
      rw [hinner] at hchain
      refine ⟨rfl, rfl, ?_⟩
      simp only [hback]
      exact .cons ⟨h.name, h.size, h.slots⟩ hsize hchain

/-! ## Closing a chain -/

@[simp] theorem completedAfter_closed (k : Nat) (live : Vec α) (point : StepPoint α)
    (solved : Outcome α (Vec α)) (chain : Chain α) :
    completedAfter k (closed live point solved chain).ending = completedAfter k solved.ending := by
  simp [completedAfter]

theorem layout_closed (live : Vec α) (point : StepPoint α) (solved : Outcome α (Vec α))
    (chain : Chain α) : (closed live point solved chain).chain.layout = chain.layout := by
  induction chain with
  | nil => rfl
  | cons member auxiliary ih =>
      by_cases hd : point.step ≤ stencilSize auxiliary
      · rw [closed, if_pos hd, layout_settle, ih]
        rfl
      · rw [closed, if_neg hd, layout_settle]
        rfl

namespace Agree

variable {k : Nat} {chain chain' : Chain α}

theorem stencilSize_eq (h : Agree k chain chain') : stencilSize chain = stencilSize chain' := by
  cases h with
  | nil => rfl
  | cons hfirst => exact hfirst.size

/-- Chains that the next step does not reach have all states in common. -/
theorem of_stencilSize_le (h : Agree k chain chain') (hsize : stencilSize chain ≤ k) (k' : Nat) :
    Agree k' chain chain' := by
  induction h with
  | nil => exact .nil
  | @cons first second auxiliary auxiliary' hfirst hlength hrest ih =>
      have hle : first.stencil.size ≤ k := hsize
      exact .cons (hfirst.of_size_le hle k') hlength (ih (by omega))

/-- The next step is solved over the same states. -/
theorem solving (h : Agree k chain chain') {member : Member α}
    (hs : solving? (k + 1) chain = some member) :
    ∃ member', solving? (k + 1) chain' = some member' ∧
      ∀ live, member.stencil.rotate live = member'.stencil.rotate live := by
  induction h with
  | nil => cases hs
  | @cons first second auxiliary auxiliary' hfirst hlength hrest ih =>
      have hrestSize := hrest.stencilSize_eq
      by_cases hd : k + 1 ≤ stencilSize auxiliary
      · rw [solving?_cons_of_le hd] at hs
        rw [solving?_cons_of_le (hrestSize ▸ hd)]
        exact ih hs
      · rw [solving?_cons_of_lt (by omega)] at hs
        obtain rfl := Option.some.inj hs
        rw [solving?_cons_of_lt (by omega)]
        exact ⟨second, rfl, hfirst.rotate_eq (by omega)⟩

theorem seed_eq (h : Agree k chain chain') (step : Nat) (guess : Guess σ α) :
    seed step guess chain = seed step guess chain' := by
  cases h with
  | nil => rfl
  | cons _ _ hrest => rw [seed, seed, hrest.stencilSize_eq]

theorem openingEvents_eq (h : Agree k chain chain') (now : α) (point : StepPoint α) :
    openingEvents now point chain = openingEvents now point chain' := by
  induction h with
  | nil => rfl
  | cons hfirst _ hrest ih => simp only [openingEvents, hfirst.name, hrest.stencilSize_eq, ih]

variable (live : Vec α) (point : StepPoint α) (solved : Outcome α (Vec α))

/-- A step closed at chains that agree ends alike, and they still agree. -/
theorem closed (h : Agree k chain chain') (hstep : point.step = k + 1) :
    let result := closed live point solved chain
    let result' := closed live point solved chain'
    result.live = result'.live ∧ result.ending = result'.ending ∧
      Agree (completedAfter k solved.ending) result.chain result'.chain := by
  induction h with
  | nil => exact ⟨rfl, rfl, .nil⟩
  | @cons first second auxiliary auxiliary' hfirst hlength hrest ih =>
      have hrestSize := hrest.stencilSize_eq
      by_cases hd : point.step ≤ stencilSize auxiliary
      · have hsize : stencilSize (Chain.closed live point solved auxiliary).chain =
            stencilSize auxiliary :=
          stencilSize_eq_of_layout_eq (layout_closed ..)
        rw [← completedAfter_closed k live point solved auxiliary] at ih ⊢
        simp only [Chain.closed, if_pos hd, if_pos (hrestSize ▸ hd)]
        exact settle_agree hfirst live point true ih.1 ih.2.1 (hsize ▸ hlength) ih.2.2
      · have hd' : ¬point.step ≤ stencilSize auxiliary' := by omega
        simp only [Chain.closed, if_neg hd, if_neg hd']
        exact settle_agree hfirst live point false rfl rfl hlength
          (hrest.of_stencilSize_le (by omega) _)

theorem closingEventsAll_eq (h : Agree k chain chain') (hstep : point.step = k + 1) :
    closingEventsAll live point solved chain = closingEventsAll live point solved chain' := by
  have hclosing : ∀ {first second : Member α} (ending : Ending α), first.Agree k second →
      closingEvents (first.entered point) ending = closingEvents (second.entered point) ending := by
    intro first second ending hmember
    cases ending <;> simp [closingEvents, Member.entered, hmember.name, hmember.size]
  induction h with
  | nil => rfl
  | @cons first second auxiliary auxiliary' hfirst hlength hrest ih =>
      have hrestSize := hrest.stencilSize_eq
      by_cases hd : point.step ≤ stencilSize auxiliary
      · simp only [closingEventsAll, if_pos hd, if_pos (hrestSize ▸ hd), ih,
          (hrest.closed live point solved hstep).2.1, hclosing _ hfirst]
      · have hd' : ¬point.step ≤ stencilSize auxiliary' := by omega
        simp only [closingEventsAll, if_neg hd, if_neg hd', hclosing _ hfirst]

end Agree

/-! ## Attempts -/

variable [Scalar α]

theorem layout_bdf (state state' : Vec α) (size : Nat) :
    (bdf state size).layout = (bdf state' size).layout := by
  induction size with
  | zero => rfl
  | succ extra ih =>
      change (_, (Stencil.filled extra state).size) :: _ =
        (_, (Stencil.filled extra state').size) :: _
      rw [Stencil.size_filled, Stencil.size_filled]
      exact congrArg _ ih

/-- Two chains with the layout of the formulas have, for a start, nothing in common. -/
theorem agree_of_layout {size : Nat} {state : Vec α} {chain chain' : Chain α}
    (h : chain.layout = (bdf state size).layout) (h' : chain'.layout = (bdf state size).layout) :
    Agree 0 chain chain' := by
  induction size generalizing chain chain' with
  | zero =>
      obtain rfl : chain = [] := List.map_eq_nil_iff.1 h
      obtain rfl : chain' = [] := List.map_eq_nil_iff.1 h'
      exact .nil
  | succ size ih =>
      cases chain with
      | nil => cases h
      | cons first auxiliary =>
          cases chain' with
          | nil => cases h'
          | cons second auxiliary' =>
              obtain ⟨hfirst, hrest⟩ := List.cons.inj h
              obtain ⟨hsecond, hrest'⟩ := List.cons.inj h'
              have hmembers := Prod.mk.inj (hfirst.trans hsecond.symm)
              refine .cons ⟨hmembers.1, hmembers.2, rfl⟩ ?_ (ih hrest hrest')
              rw [stencilSize_eq_of_layout_eq hrest, stencilSize_bdf]
              simpa using (Prod.mk.inj hfirst).2

variable [Journal α σ] (equation : StepEquation σ α) (solver : Solver σ α)

theorem layout_attempt (chain : Chain α) (guess : Guess σ α) (live : Vec α) (now dt : α)
    (step : Nat) (env : σ) :
    (attempt equation solver chain guess live now dt step env).1.chain.layout = chain.layout := by
  cases hs : solving? step chain with
  | none =>
      rw [attempt_of_refused equation solver hs]
      rfl
  | some member =>
      obtain ⟨solved, hclosed⟩ := exists_closed equation solver hs guess live now dt env
      rw [hclosed, layout_closed]

/-- What the attempts at the step after `k` steps have in common at two chains:
all but the states that are still to be dropped. -/
structure AttemptsAgree (k : Nat) (first second : Attempt α) : Prop where
  live : first.live = second.live
  ending : first.ending = second.ending
  chain : Agree (completedAfter k first.ending) first.chain second.chain

/-- Chains that agree attempt the next step alike, down to what is reported. -/
theorem Agree.attempt {k : Nat} {chain chain' : Chain α} (h : Agree k chain chain')
    (guess : Guess σ α) (live : Vec α) (now dt : α) (env : σ) :
    let result := attempt equation solver chain guess live now dt (k + 1) env
    let result' := attempt equation solver chain' guess live now dt (k + 1) env
    AttemptsAgree k result.1 result'.1 ∧ result.2 = result'.2 := by
  cases hs : solving? (k + 1) chain with
  | none =>
      have hnil : chain = [] := by simpa using solving?_eq_none_iff.1 hs
      subst hnil
      cases h
      exact ⟨⟨rfl, rfl, .nil⟩, rfl⟩
  | some member =>
      obtain ⟨member', hs', hrotate⟩ := h.solving hs
      let point : StepPoint α := ⟨k + 1, now + dt, dt⟩
      let solve := do
        noteAll (openingEvents now point chain)
        solveStep solver (equation.system point (member.stencil.rotate live))
          (seed (k + 1) guess chain) point live
      rw [attempt_of_solving equation solver hs, attempt_of_solving equation solver hs',
        ← h.openingEvents_eq, ← hrotate, ← h.seed_eq]
      obtain ⟨hlive, hending, hchain⟩ := h.closed live point (solve env).1 rfl
      refine ⟨⟨hlive, hending, ?_⟩, ?_⟩
      · exact (completedAfter_closed k live point (solve env).1 chain).symm ▸ hchain
      · exact congrArg (fun events => (noteAll events (solve env).2).2)
          (h.closingEventsAll_eq live point (solve env).1 rfl)

/-! ## Sessions -/

variable {equation}

theorem session_agree {calls : List (Call σ α)} {k : Nat} {chain chain' : Chain α}
    (h : Agree k chain chain') {live : Vec α} {env : σ}
    (hnumbered : Numbered k (session equation calls chain live env).1) :
    let used := session equation calls chain live env
    let new := session equation calls chain' live env
    outcomes used.1 = outcomes new.1 ∧ used.2 = new.2 := by
  induction calls generalizing k chain chain' live env with
  | nil => exact ⟨rfl, rfl⟩
  | cons call calls ih =>
      have hstep : call.step = k + 1 := hnumbered.1
      obtain ⟨⟨hlive, hending, hchain⟩, henv⟩ :=
        h.attempt equation call.solver call.guess live call.now call.dt env
      rw [← hstep] at hlive hending hchain henv
      obtain ⟨houtcomes, hafter⟩ := ih hchain hnumbered.2
      have hnext : session equation calls (perform equation call chain' live env).1.chain
            (perform equation call chain' live env).1.live
            (perform equation call chain' live env).2 =
          session equation calls (perform equation call chain' live env).1.chain
            (perform equation call chain live env).1.live
            (perform equation call chain live env).2 :=
        congr (congrArg _ hlive.symm) henv.symm
      constructor
      · rw [session_cons, session_cons, hnext, outcomes_cons, outcomes_cons]
        exact List.cons_eq_cons.2 ⟨Prod.ext hlive hending, houtcomes⟩
      · exact hafter.trans (congrArg Prod.snd hnext).symm

end Chain

namespace Run

/-! ## Runs -/

/-- The live state and the environment are the same, and the chains agree.  The
first one keeps its layout. -/
def Restarted (shape : List (String × Nat)) : Correspondence (Chain α × σ) (Chain α × σ) α :=
  fun accepted used new => used.1 = new.1 ∧ used.2.2 = new.2.2 ∧ used.2.1.layout = shape ∧
    Chain.Agree accepted used.2.1 new.2.1

/-- A run ends alike, and leaves the environment of its callbacks alike, with a
used stepper and with a new one; the used one can be used again. -/
structure StartsOver (used new : Chain α) (run : StateM (Chain α × σ) (Run α β)) (env : σ) :
    Prop where
  same : (run (used, env)).1 = (run (new, env)).1
  same_env : (run (used, env)).2.2 = (run (new, env)).2.2
  layout : (run (used, env)).2.1.layout = used.layout

section Callbacks

variable (shape : List (String × Nat))

theorem policy_restarted (policy : Policy σ α β) :
    (policy.beside (Chain α)).Tandem (Restarted shape) (policy.beside (Chain α)) := by
  constructor
  intro accepted live live' time
  constructor
  rintro ⟨chain, env⟩ ⟨chain', env'⟩ ⟨rfl, rfl, hchains⟩
  exact ⟨rfl, rfl, rfl, hchains⟩

theorem observer_restarted (observer : Observer σ α) :
    (observer.beside (Chain α)).Tandem (Restarted shape) (observer.beside (Chain α)) := by
  constructor
  intro accepted live live' time
  constructor
  rintro ⟨chain, env⟩ ⟨chain', env'⟩ ⟨rfl, rfl, hchains⟩
  exact ⟨rfl, rfl, hchains⟩

variable [Journal α σ]

theorem notes_restarted : NotesTandem (Restarted shape : Correspondence (Chain α × σ) _ α) := by
  constructor
  intro accepted live live' event
  constructor
  rintro ⟨chain, env⟩ ⟨chain', env'⟩ ⟨rfl, rfl, hchains⟩
  exact ⟨rfl, rfl, hchains⟩

variable [Scalar α] (equation : StepEquation σ α) (solver : Solver σ α) (order : Nat)

theorem stepper_restarted :
    (Chain.steppable equation solver order).Tandem (Restarted shape)
      (Chain.steppable equation solver order) := by
  constructor
  intro accepted live live' time dt
  constructor
  rintro ⟨chain, env⟩ ⟨chain', env'⟩ ⟨rfl, rfl, hlayout, hchains⟩
  obtain ⟨⟨hlive, hending, hchain⟩, henv⟩ :=
    hchains.attempt equation solver Guess.none live time dt env
  exact ⟨hending, hlive, henv, (Chain.layout_attempt ..).trans hlayout, hchain⟩

end Callbacks

variable {used new : Chain α} {live : Vec α}

theorem startsOver_of_tandem {run : StateM (Chain α × σ) (Run α β)}
    (h : Parallel ((Restarted used.layout).Beside 0 live live) run run
      (EndAlike (Restarted used.layout)))
    (hchains : Chain.Agree 0 used new) (env : σ) : StartsOver used new run env := by
  obtain ⟨hending, _, hlive, henv, hlayout, _⟩ :=
    h.holds (used, env) (new, env) ⟨rfl, rfl, rfl, hchains⟩
  exact ⟨eq_of_live_of_ending hlive hending, henv, hlayout⟩

variable [Scalar α] [Journal α σ]

/-- Each of the four runs starts over, whatever its callbacks are. -/
structure AllStartOver (used new : Chain α) (live : Vec α) (stepper : Steppable (Chain α × σ) α) :
    Prop where
  steps (observer : Observer σ α) (start dt : α) (count : Nat) (env : σ) :
    StartsOver used new (steps stepper (observer.beside _) start dt count live) env
  toTime (policy : Policy σ α α) (observer : Observer σ α) (fuel : Nat) (start final : α)
    (env : σ) :
    StartsOver used new
      (toTime fuel stepper (policy.beside _) (observer.beside _) start final live) env
  stepsRetrying (control : Policy σ α (StepControl α)) (observer : Observer σ α) (fuel : Nat)
    (start : α) (count : Nat) (env : σ) :
    StartsOver used new
      (stepsRetrying fuel stepper (control.beside _) (observer.beside _) start count live) env
  toTimeRetrying (control : Policy σ α (StepControl α)) (observer : Observer σ α) (fuel : Nat)
    (start final : α) (env : σ) :
    StartsOver used new
      (toTimeRetrying fuel stepper (control.beside _) (observer.beside _) start final live) env

theorem allStartOver_of_agree (hchains : Chain.Agree 0 used new) (live : Vec α)
    (equation : StepEquation σ α) (solver : Solver σ α) (order : Nat) :
    AllStartOver used new live (Chain.steppable equation solver order) :=
  have hstepper := stepper_restarted used.layout equation solver order
  { steps observer start dt count env :=
      startsOver_of_tandem
        (steps_tandem hstepper (observer_restarted _ observer) start dt count live live) hchains env
    toTime policy observer fuel start final env :=
      startsOver_of_tandem
        (toTime_tandem hstepper (policy_restarted _ policy) (observer_restarted _ observer) fuel
          start final live live) hchains env
    stepsRetrying control observer fuel start count env :=
      startsOver_of_tandem
        (stepsRetrying_tandem hstepper (policy_restarted _ control) (observer_restarted _ observer)
          (notes_restarted _) fuel start count live live) hchains env
    toTimeRetrying control observer fuel start final env :=
      startsOver_of_tandem
        (toTimeRetrying_tandem hstepper (policy_restarted _ control) (observer_restarted _ observer)
          (notes_restarted _) fuel start final live live) hchains env }

end Run

namespace Chain

variable [Scalar α] [Journal α σ] (equation : StepEquation σ α)

/-- Take a chain of the formula over `size` states in any state, and a live state.
Calls that are numbered from step 1, each step repeated until it is completed, give
the same live states and endings as with a chain newly built from the live state.
So does each of the four runs, for the same callbacks, and the chain can be used
for another one afterwards. -/
theorem restart_forgets {size : Nat} {live : Vec α} {used : Chain α}
    (hlayout : used.layout = (bdf live size).layout) :
    (∀ (calls : List (Call σ α)) (env : σ),
      Numbered 0 (session equation calls used live env).1 →
        let again := session equation calls used live env
        let new := session equation calls (bdf live size) live env
        outcomes again.1 = outcomes new.1 ∧ again.2 = new.2) ∧
    ∀ solver : Solver σ α,
      Run.AllStartOver used (bdf live size) live (Chain.steppable equation solver size) := by
  have hchains : Agree 0 used (bdf live size) := agree_of_layout hlayout rfl
  exact ⟨fun calls env hnumbered => session_agree hchains hnumbered,
    fun solver => Run.allStartOver_of_agree hchains live equation solver size⟩

/-- The states the stepper was built from are not those it starts over from. -/
theorem restart_forgets_at_recovering :
    (bdf #[9.0] 2 : Chain Float).layout = (bdf #[1.0] 2 : Chain Float).layout ∧
      Numbered 0 (session (.bdf guarded) recovering (bdf #[9.0] 2) #[1.0] ()).1 ∧
      outcomes (session (.bdf guarded) recovering (bdf #[9.0] 2) #[1.0] ()).1 =
        outcomes (session (.bdf guarded) recovering (bdf #[1.0] 2) #[1.0] ()).1 := by
  have hlayout := layout_bdf (#[9.0] : Vec Float) #[1.0] 2
  have hnumbered : Numbered 0 (session (.bdf guarded) recovering (bdf #[9.0] 2) #[1.0] ()).1 :=
    ⟨rfl, rfl, rfl, trivial⟩
  have halike := (restart_forgets (.bdf guarded) hlayout).1 recovering () hnumbered
  exact ⟨hlayout, hnumbered, halike.1⟩

end Chain

end TimeStepping
