import TimeStepping.Proofs.Formulas
import TimeStepping.Proofs.Implicit.StartUp

/-!
# Steps along a line

Under a constant velocity the solution moves along a line, and so do the backward
differentiation formulas, but not at the same pace.  Their coefficients are those for
equally long steps.  `path` follows the positions through the lengths of the steps:
they are those of the solution as long as the lengths are the same, and the first step
of another length misses.  A completed step of a chain on a history along the line is
one step of the path.
-/

namespace TimeStepping

/-! ## Positions -/

/-- Where the formula over `size` positions, or over as many as there are, moves with a
step of length `dt`, at unit velocity; `past` lists the positions newest first. -/
noncomputable def reach (size : Nat) (dt : ℝ) (past : List ℝ) : ℝ :=
  match (BdfTable.ofSize? (min past.length size) : Option (BdfTable ℝ)) with
  | some table => mix table.alpha past + table.beta * dt
  | none => 0

/-- The times since the start, each with the position then, after steps of the given
lengths, all newest first. -/
noncomputable def path (size : Nat) : List ℝ → List (ℝ × ℝ)
  | [] => [(0, 0)]
  | dt :: earlier =>
      ((dt :: earlier).sum, reach size dt ((path size earlier).map (·.2))) :: path size earlier

section Paths

variable (size : Nat)

@[simp] theorem length_path (dts : List ℝ) : (path size dts).length = dts.length + 1 := by
  induction dts with
  | nil => rfl
  | cons dt earlier ih => rw [path, List.length_cons, ih, List.length_cons]

theorem path_suffix (later earlier : List ℝ) :
    path size earlier <:+ path size (later ++ earlier) := by
  induction later with
  | nil => exact List.suffix_rfl
  | cons dt later ih => exact ih.trans (List.suffix_cons _ _)

/-- The first points of a path are the path of the first steps. -/
theorem take_path (dts : List ℝ) (count : Nat) :
    (path size dts.reverse).reverse.take (count + 1) =
      (path size (dts.take count).reverse).reverse := by
  have hsuffix := path_suffix size (dts.drop count).reverse (dts.take count).reverse
  rw [← List.reverse_append, List.take_append_drop] at hsuffix
  rw [List.prefix_iff_eq_take.1 (List.reverse_prefix.2 hsuffix), List.take_eq_take_iff]
  simp only [List.length_reverse, length_path, List.length_take]
  omega

theorem map_fst_path (dts : List ℝ) : (path size dts).map (·.1) = dts.tails.map List.sum := by
  induction dts with
  | nil => rfl
  | cons dt earlier ih => rw [path, List.map_cons, ih, List.tails_cons, List.map_cons]

theorem map_snd_path {dts : List ℝ} (h : ∀ point ∈ path size dts, point.2 = point.1) :
    (path size dts).map (·.2) = dts.tails.map List.sum := by
  rw [← map_fst_path size dts]
  exact List.map_congr_left h

end Paths

/-! ## The pace of the formulas -/

theorem reach_start {size : Nat} (hpos : 0 < size) (dt : ℝ) : reach size dt [0] = dt := by
  have hmin : min [(0 : ℝ)].length size = 1 := by simp; omega
  rw [reach, hmin]
  simp [BdfTable.ofSize?]

theorem reach_one (dt position : ℝ) (past : List ℝ) :
    reach 1 dt (position :: past) = position + dt := by
  have hmin : min (position :: past).length 1 = 1 := by simp
  rw [reach, hmin]
  simp [BdfTable.ofSize?]

theorem reach_two {size : Nat} (dt h position : ℝ) (past : List ℝ)
    (hmin : min (past.length + 2) size = 2) :
    reach size dt ((h + position) :: position :: past) =
      dt + (h + position) + 1 / 3 * (h - dt) := by
  rw [reach, List.length_cons, List.length_cons, hmin]
  simp [BdfTable.ofSize?]
  ring

theorem reach_three {size : Nat} (dt h position : ℝ) (past : List ℝ)
    (hmin : min (past.length + 3) size = 3) :
    reach size dt ((h + (h + position)) :: (h + position) :: position :: past) =
      dt + (h + (h + position)) + 5 / 11 * (h - dt) := by
  rw [reach, List.length_cons, List.length_cons, List.length_cons, hmin]
  simp [BdfTable.ofSize?]
  ring

/-- After steps of length `h`, the formulas over more than one state keep pace with the
solution in a step of the same length only. -/
theorem reach_iff {size : Nat} (htwo : 2 ≤ size) (hle : size ≤ 3) (dt h : ℝ) {rest : List ℝ}
    (hequal : ∀ other ∈ rest, other = h) :
    reach size dt ((h :: rest).tails.map List.sum) = dt + (h :: rest).sum ↔ dt = h := by
  obtain ⟨pace, hpace, hreach⟩ : ∃ pace : ℝ, pace ≠ 0 ∧
      reach size dt ((h :: rest).tails.map List.sum) =
        dt + (h :: rest).sum + pace * (h - dt) := by
    cases rest with
    | nil => exact ⟨1 / 3, by norm_num, reach_two dt h 0 [] (by simp; omega)⟩
    | cons other rest =>
        obtain rfl : other = h := hequal other List.mem_cons_self
        obtain ⟨more, hmore⟩ : ∃ more, rest.tails.map List.sum = rest.sum :: more := by
          cases rest <;> exact ⟨_, rfl⟩
        rw [List.tails_cons, List.tails_cons, List.map_cons, List.map_cons, hmore]
        by_cases hthree : size = 3
        · exact ⟨5 / 11, by norm_num, reach_three dt other rest.sum more (by omega)⟩
        · exact ⟨1 / 3, by norm_num, reach_two dt other (other + rest.sum) _ (by simp; omega)⟩
  rw [hreach, add_eq_left, mul_eq_zero, or_iff_right hpace, sub_eq_zero, eq_comm]

theorem reach_exact_iff {size : Nat} (hpos : 0 < size) (hle : size ≤ 3) (dt : ℝ)
    {earlier : List ℝ} (hequal : size = 1 ∨ ∀ dt ∈ earlier, ∀ dt' ∈ earlier, dt = dt') :
    reach size dt (earlier.tails.map List.sum) = (dt :: earlier).sum ↔
      size = 1 ∨ ∀ other ∈ earlier, dt = other := by
  cases earlier with
  | nil => simp [reach_start hpos]
  | cons h rest =>
      by_cases hone : size = 1
      · have hstep := reach_one dt (h :: rest).sum (rest.tails.map List.sum)
        simp only [hone, true_or, iff_true]
        rw [List.tails_cons, List.map_cons, hstep, add_comm]
        exact List.sum_cons.symm
      · have hsame : ∀ other ∈ h :: rest, other = h := fun other hother =>
          hequal.resolve_left hone other hother h List.mem_cons_self
        have hrest : ∀ other ∈ rest, other = h := fun other hother =>
          hsame other (List.mem_cons_of_mem h hother)
        rw [List.sum_cons, reach_iff (by omega) hle dt h hrest, or_iff_right hone]
        constructor
        · intro hdt other hother
          rw [hdt, hsame other hother]
        · intro hall
          exact hall h List.mem_cons_self

/-- The positions are those of the solution if and only if there is one past state only
or all time steps are the same. -/
theorem path_exact_iff {size : Nat} (hpos : 0 < size) (hle : size ≤ 3) (dts : List ℝ) :
    (∀ point ∈ path size dts, point.2 = point.1) ↔
      size = 1 ∨ ∀ dt ∈ dts, ∀ dt' ∈ dts, dt = dt' := by
  induction dts with
  | nil => simp [path]
  | cons dt earlier ih =>
      rw [path, List.forall_mem_cons]
      constructor
      · rintro ⟨hhead, hexact⟩
        have hequal := ih.1 hexact
        rw [map_snd_path size hexact] at hhead
        refine ((reach_exact_iff hpos hle dt hequal).1 hhead).imp_right fun hdt => ?_
        have hsame : ∀ other ∈ dt :: earlier, dt = other := by simpa using hdt
        intro first hfirst second hsecond
        rw [← hsame first hfirst, ← hsame second hsecond]
      · intro hall
        have hequal : size = 1 ∨ ∀ first ∈ earlier, ∀ second ∈ earlier, first = second :=
          hall.imp_right fun h first hfirst second hsecond =>
            h first (List.mem_cons_of_mem dt hfirst) second (List.mem_cons_of_mem dt hsecond)
        have hdt : size = 1 ∨ ∀ other ∈ earlier, dt = other :=
          hall.imp_right fun h other hother =>
            h dt List.mem_cons_self other (List.mem_cons_of_mem dt hother)
        have hexact := ih.2 hequal
        refine ⟨?_, hexact⟩
        rw [map_snd_path size hexact]
        exact (reach_exact_iff hpos hle dt hequal).2 hdt

/-! ## Roots -/

variable {σ : Type}

/-- The velocity is `b` at every state and time. -/
structure ContinuousSystem.Steady (system : ContinuousSystem σ ℝ) (b : Vec ℝ) : Prop where
  size : system.velocityBuffer.size = b.size
  velocity (state : Vec ℝ) (time : ℝ) (env : σ) :
    (system.velocity state time system.velocityBuffer env).1 = .done b

/-- Whenever the solver completes, it leaves an exact root of the equation of the step. -/
def Solver.Exact (solver : Solver σ ℝ) (equation : StepEquation σ ℝ) : Prop :=
  ∀ point stencil start env,
    let solved := solver.solve (equation.system point stencil) start env
    solved.1.ending = .done →
      (equation.residual point stencil solved.1.value equation.residualBuffer solved.2).1 =
        .done (Vec.zeros equation.residualBuffer.size)

section Roots

variable {n size : Nat} {u c : Fin n → ℝ} {table : BdfTable ℝ}

/-- The state at a position on the line through `u` in the direction `c`. -/
def along (u c : Fin n → ℝ) (position : ℝ) : Vec ℝ :=
  .ofCoords (position • c + u)

theorem mix_along (htable : BdfTable.ofSize? size = some table) {positions : List ℝ}
    (hlength : size ≤ positions.length) :
    mix table.alpha (positions.map fun position => position • c + u) =
      mix table.alpha positions • c + u := by
  have hlinear : IsLinearMap ℝ (fun position : ℝ => position • c) :=
    ⟨fun x y => add_smul x y c, fun x y => mul_smul x y c⟩
  rw [mix_affine hlinear u ((BdfTable.length_alpha htable).le.trans hlength),
    BdfTable.sum_alpha htable, one_smul]

theorem size_of_residual {dt : ℝ} {x b r : Vec ℝ} {history : List (Vec ℝ)}
    (h : table.residual dt x history b = .ok r) : x.size = b.size := by
  by_contra hne
  have hsize : (Vec.scale (-table.beta * dt) b).size ≠ x.size := by
    simpa [Vec.scale] using Ne.symm hne
  rw [BdfTable.residual, Vec.add, Vec.combine, if_neg hsize] at h
  cases h

variable {system : ContinuousSystem σ ℝ} {stencil : Stencil ℝ} {positions : List ℝ}

theorem residual_along (htable : BdfTable.ofSize? stencil.size = some table)
    (hslots : stencil.slots = positions.map (along u c)) (dt : ℝ) (v : Fin n → ℝ) :
    table.residual dt (.ofCoords v) stencil.slots (.ofCoords c) =
      .ok (.ofCoords (v - ((mix table.alpha positions + table.beta * dt) • c + u))) := by
  have hlength : stencil.size ≤ positions.length := by
    rw [← Stencil.length_slots, hslots, List.length_map]
  have hmap : positions.map (along u c) =
      (positions.map fun position => position • c + u).map .ofCoords := by
    rw [List.map_map]
    rfl
  rw [hslots, hmap, BdfTable.residual_ofCoords, mix_along htable hlength]
  congr 2
  module

/-- On a history along a line, the equation of a step has one root, which is on the line. -/
theorem root_iff (hsteady : system.Steady (.ofCoords c))
    (htable : BdfTable.ofSize? stencil.size = some table)
    (hslots : stencil.slots = positions.map (along u c)) {point : StepPoint ℝ} {x : Vec ℝ}
    {env : σ} :
    ((StepEquation.bdf system).residual point stencil x system.velocityBuffer env).1 =
        .done (Vec.zeros n) ↔
      x = along u c (mix table.alpha positions + table.beta * point.dt) := by
  rw [StepEquation.residual_of_velocity htable (hsteady.velocity x point.time env)]
  constructor
  · intro hroot
    cases hcomputed : table.residual point.dt x stencil.slots (.ofCoords c) with
    | error cause =>
        rw [hcomputed] at hroot
        cases congrArg Outcome.ending hroot
    | ok r =>
        rw [hcomputed] at hroot
        obtain rfl : r = Vec.zeros n := congrArg Outcome.value hroot
        have hsize := size_of_residual hcomputed
        rw [Vec.size_ofCoords] at hsize
        obtain ⟨v, rfl⟩ := Vec.exists_ofCoords hsize
        rw [residual_along htable hslots, Vec.zeros_eq_ofCoords, Except.ok.injEq,
          Vec.ofCoords_injective.eq_iff, sub_eq_zero] at hcomputed
        rw [hcomputed, along]
  · rintro rfl
    rw [along, residual_along htable hslots, sub_self, ← Vec.zeros_eq_ofCoords]
    rfl

/-- Over the newest of some accepted states along a line, the root is where the formula
moves from there. -/
theorem root_iff_reach (hsteady : system.Steady (.ofCoords c)) (hpos : 0 < size) (hle : size ≤ 3)
    {live : Vec ℝ} {past : List (Vec ℝ)}
    (hslots : stencil.slots = (live :: past).take (min (past.length + 1) size))
    (hpositions : live :: past = positions.map (along u c)) {point : StepPoint ℝ} {x : Vec ℝ}
    {env : σ} :
    ((StepEquation.bdf system).residual point stencil x system.velocityBuffer env).1 =
        .done (Vec.zeros n) ↔
      x = along u c (reach size point.dt positions) := by
  have hsize : stencil.size = min (past.length + 1) size := by
    rw [← Stencil.length_slots, hslots, List.length_take, List.length_cons]
    omega
  obtain ⟨table, htable⟩ : ∃ table : BdfTable ℝ, BdfTable.ofSize? stencil.size = some table :=
    BdfTable.exists_ofSize? (by omega) (by omega)
  have hlength : positions.length = past.length + 1 := by
    rw [← List.length_map, ← hpositions, List.length_cons]
  have halpha : table.alpha.length ≤ min (past.length + 1) size := by
    rw [BdfTable.length_alpha htable, hsize]
  rw [hpositions, ← List.map_take] at hslots
  rw [root_iff hsteady htable hslots, mix_take halpha, reach, hlength, ← hsize, htable]

end Roots

/-! ## Steps -/

namespace Chain

variable [Journal ℝ σ] (equation : StepEquation σ ℝ) (solver : Solver σ ℝ) {size : Nat}
  {initial live : Vec ℝ} {past : List (Vec ℝ)} {chain : Chain ℝ}

/-- The step after `past` solves its equation over the newest states, and completes if
that solve does. -/
theorem Ready.attempt_closed (hpos : 0 < size) (h : Ready initial past size chain.stencils)
    (live : Vec ℝ) (now dt : ℝ) (env : σ) :
    ∃ (stencil : Stencil ℝ) (before : σ),
      stencil.slots = (live :: past).take (min (past.length + 1) size) ∧
      let point : StepPoint ℝ := ⟨past.length + 1, now + dt, dt⟩
      let solved := (solver.solve (equation.system point stencil) live before).1
      let result :=
        (attempt equation solver chain Guess.none live now dt (past.length + 1) env).1
      result.ending.isDone = solved.ending.isDone ∧
        (solved.ending.isDone → result.live = solved.value ∧
          Ready initial (live :: past) size result.chain.stencils) := by
  obtain ⟨member, hsolving, hslots⟩ := h.solving
  obtain ⟨k, hk⟩ : ∃ k, min (past.length + 1) size = k + 1 :=
    ⟨min (past.length + 1) size - 1, by omega⟩
  have hrotated : (member.stencil.rotate live).slots = (live :: past).take (k + 1) := by
    rw [← window_eq_take initial (by simp; omega), window_cons, ← hk, ← hslots]
    rfl
  let point : StepPoint ℝ := ⟨past.length + 1, now + dt, dt⟩
  let before := (noteAll (openingEvents now point chain) env).2
  let solved := (solver.solve (equation.system point (member.stencil.rotate live)) live before).1
  have hclosed : (attempt equation solver chain Guess.none live now dt (past.length + 1) env).1 =
      closed live point solved chain := by
    rw [attempt_of_solving _ _ hsolving, seed_none]
    rfl
  refine ⟨member.stencil.rotate live, before, by rw [hk, hrotated], ?_⟩
  intro point solved result
  have hresult : result = closed live point solved chain := hclosed
  rw [hresult]
  refine ⟨isDone_closed, fun hdone => ?_⟩
  have hkept : (closed live point solved chain).live = solved.value ∧
      (closed live point solved chain).chain.stencils = Chain.pushed live point.step chain :=
    closed_keeps hsolving hdone
  exact ⟨hkept.1, hkept.2 ▸ h.pushed⟩

/-- A completed step on a history along a line goes on along the line. -/
theorem Ready.step_along {n : Nat} {u c : Fin n → ℝ} {system : ContinuousSystem σ ℝ}
    {solver : Solver σ ℝ} (hsteady : system.Steady (.ofCoords c))
    (hexact : solver.Exact (.bdf system)) (hpos : 0 < size) (hle : size ≤ 3)
    (h : Ready initial past size chain.stencils) {positions : List ℝ}
    (hpositions : live :: past = positions.map (along u c)) (now dt : ℝ) (env : σ)
    (hdone : (attempt (.bdf system) solver chain Guess.none live now dt (past.length + 1)
      env).1.ending = .done) :
    let result := (attempt (.bdf system) solver chain Guess.none live now dt (past.length + 1)
      env).1
    result.live = along u c (reach size dt positions) ∧
      Ready initial (live :: past) size result.chain.stencils := by
  intro result
  obtain ⟨stencil, before, hslots, hending, hclosed⟩ :=
    h.attempt_closed (.bdf system) solver hpos live now dt env
  have hsolved := hending.symm.trans (Ending.isDone_iff.2 hdone)
  obtain ⟨hlive, hready⟩ := hclosed hsolved
  have hbuffer : (StepEquation.bdf system).residualBuffer.size = n :=
    hsteady.size.trans (Vec.size_ofCoords c)
  have hroot := hexact _ stencil live before (Ending.isDone_iff.1 hsolved)
  rw [hbuffer] at hroot
  have hline := (root_iff_reach hsteady hpos hle hslots hpositions).1 hroot
  exact ⟨hlive.trans hline, hready⟩

end Chain

end TimeStepping
