import Mathlib.Algebra.Order.Pi
import Mathlib.Analysis.Convex.Function
import TimeStepping.Proofs.Explicit.Orbits
import TimeStepping.Proofs.Run.Trace

/-!
# Strong stability

A step of the strong-stability preserving scheme puts convex combinations of forward
Euler steps together.  A convex set that Euler steps do not leave therefore holds every
state it comes to, and a convex functional that they do not increase does not grow:
`ExplicitStepper.ssprk3_preserves_stability`.
-/

namespace TimeStepping

variable {σ : Type} {n : Nat}

/-! ## Euler steps -/

namespace ContinuousSystem

/-- A forward Euler step of length `dt` from `z` may come to `z'`. -/
def EulerStep (system : ContinuousSystem σ ℝ) (dt time : ℝ) (z z' : Fin n → ℝ) : Prop :=
  ∃ buffer env, system.Reused buffer ∧
    (system.velocity (.ofCoords z) time buffer env).1.ending = .done ∧
    ExplicitStepper.moved (.ofCoords z) dt (system.velocity (.ofCoords z) time buffer env).1.value =
      .ok (.ofCoords z')

/-- At the given times, Euler steps do not leave the set. -/
def EulerKeeps (system : ContinuousSystem σ ℝ) (dt : ℝ) (times : Set ℝ)
    (C : Set (Fin n → ℝ)) : Prop :=
  ∀ time ∈ times, ∀ z ∈ C, ∀ z', system.EulerStep dt time z z' → z' ∈ C

/-- At the given times, Euler steps from the set do not increase the functional. -/
def EulerLowers (system : ContinuousSystem σ ℝ) (dt : ℝ) (times : Set ℝ)
    (C : Set (Fin n → ℝ)) (φ : (Fin n → ℝ) → ℝ) : Prop :=
  ∀ time ∈ times, ∀ z ∈ C, ∀ z', system.EulerStep dt time z z' → φ z' ≤ φ z

variable {system : ContinuousSystem σ ℝ} {f : VelocityField σ n} {dt time : ℝ}

theorem eulerStep_iff (h : system.HasVelocity f) (z z' : Fin n → ℝ) :
    system.EulerStep dt time z z' ↔
      ∃ env, (f z time env).1.ending = .done ∧ z' = z + dt • (f z time env).1.value := by
  constructor
  · rintro ⟨buffer, env, hbuffer, hdone, hmoved⟩
    obtain ⟨-, hending, hvalue⟩ := (h.velocity hbuffer z time).holds env env rfl
    rw [hending] at hdone
    rw [hvalue hdone, ExplicitStepper.moved_ofCoords] at hmoved
    exact ⟨env, hdone, (Vec.ofCoords_injective (Except.ok.inj hmoved)).symm⟩
  · rintro ⟨env, hdone, rfl⟩
    obtain ⟨-, hending, hvalue⟩ := (h.velocity .new z time).holds env env rfl
    refine ⟨system.velocityBuffer, env, .new, hending.trans hdone, ?_⟩
    rw [hvalue hdone, ExplicitStepper.moved_ofCoords]

/-- The states of the set from which the functional is not greater than from `y`. -/
theorem EulerKeeps.sublevel {times : Set ℝ} {C : Set (Fin n → ℝ)} {φ : (Fin n → ℝ) → ℝ}
    (hkeeps : system.EulerKeeps dt times C) (hlowers : system.EulerLowers dt times C φ) (c : ℝ) :
    system.EulerKeeps dt times {z ∈ C | φ z ≤ c} := by
  rintro time htime z ⟨hz, hle⟩ z' hstep
  exact ⟨hkeeps time htime z hz z' hstep, (hlowers time htime z hz z' hstep).trans hle⟩

end ContinuousSystem

open ContinuousSystem

namespace ExplicitStepper

/-! ## One step -/

/-- The times of the stages of a step. -/
def stageTimes (time dt : ℝ) : Set ℝ :=
  {time, time + dt, time + Scalar.ratio 1 2 * dt}

theorem stageTime_mem (time dt : ℝ) (stage : Nat) :
    stageTime .ssprk3 time dt stage ∈ stageTimes time dt := by
  rcases stage with _ | _ | stage
  · exact .inl rfl
  · exact .inr (.inl rfl)
  · exact .inr (.inr rfl)

/-- Each slope leads from the state of its stage into the set. -/
def Forward (C : Set (Fin n → ℝ)) (y : Fin n → ℝ) (dt : ℝ) (slopes : List (Vec ℝ)) : Prop :=
  ∀ before slope after, slopes = before ++ slope :: after → ∀ state next,
    stageState .ssprk3 (.ofCoords y) dt before = .ok state → moved state dt slope = .ok next →
      next ∈ Vec.ofCoords '' C

section Stages

variable {system : ContinuousSystem σ ℝ} {C : Set (Fin n → ℝ)} {y : Fin n → ℝ} {time dt : ℝ}
  {slopes : List (Vec ℝ)}

theorem Forward.nil : Forward C y dt [] := by
  intro before slope after h
  simp at h

theorem Forward.concat (h : Forward C y dt slopes) {slope state : Vec ℝ}
    (hstate : stageState .ssprk3 (.ofCoords y) dt slopes = .ok state)
    (hslope : ∀ next, moved state dt slope = .ok next → next ∈ Vec.ofCoords '' C) :
    Forward C y dt (slopes ++ [slope]) := by
  intro before slope' after hsplit state' next hstate' hnext
  rcases List.eq_nil_or_concat after with rfl | ⟨rest, last, rfl⟩
  · obtain ⟨rfl, hlast⟩ := List.append_inj' hsplit rfl
    obtain rfl := (List.cons.inj hlast).1
    obtain rfl := Except.ok.inj (hstate.symm.trans hstate')
    exact hslope next hnext
  · have hinit : slopes ++ [slope] = (before ++ slope' :: rest) ++ [last] := by
      simpa using hsplit
    obtain ⟨rfl, -⟩ := List.append_inj' hinit rfl
    exact h before slope' rest rfl state' next hstate' hnext

/-- A convex combination of `y` and another state of the set. -/
theorem add_scale_mem (hC : Convex ℝ C) (hy : y ∈ C) {a b : ℝ} (ha : 0 ≤ a) (hb : 0 ≤ b)
    (hab : a + b = 1) {u next : Vec ℝ} (hu : u ∈ Vec.ofCoords '' C)
    (h : Vec.add (.ofCoords (a • y)) (Vec.scale b u) = .ok next) :
    next ∈ Vec.ofCoords '' C := by
  obtain ⟨z, hz, rfl⟩ := hu
  rw [Vec.scale_ofCoords, Vec.add_ofCoords] at h
  exact ⟨a • y + b • z, hC hy hz ha hb hab, Except.ok.inj h⟩

theorem Forward.stageState_mem (h : Forward C y dt slopes) (hC : Convex ℝ C) (hy : y ∈ C)
    {state : Vec ℝ} (hstate : stageState .ssprk3 (.ofCoords y) dt slopes = .ok state) :
    state ∈ Vec.ofCoords '' C := by
  rcases slopes with _ | ⟨k₀, _ | ⟨k₁, _ | ⟨k₂, rest⟩⟩⟩
  · exact ⟨y, hy, Except.ok.inj hstate⟩
  · exact h [] k₀ [] rfl _ state rfl hstate
  · obtain ⟨u, hu, hrest⟩ := exists_of_bind_ok hstate
    obtain ⟨v, hv, hsum⟩ := exists_of_bind_ok hrest
    have hmem : v ∈ Vec.ofCoords '' C := h [k₀] k₁ [] rfl u v hu hv
    rw [Vec.scale_ofCoords] at hsum
    exact add_scale_mem hC hy (by norm_num) (by norm_num) (by norm_num) hmem hsum
  · exact ⟨y, hy, Except.ok.inj hstate⟩

theorem Forward.finalState_mem (h : Forward C y dt slopes) (hC : Convex ℝ C) (hy : y ∈ C)
    {next : Vec ℝ} (hnext : finalState .ssprk3 (.ofCoords y) dt slopes = .ok next) :
    next ∈ Vec.ofCoords '' C := by
  rcases slopes with _ | ⟨k₀, _ | ⟨k₁, _ | ⟨k₂, _ | ⟨k₃, rest⟩⟩⟩⟩
  · exact ⟨y, hy, Except.ok.inj hnext⟩
  · exact ⟨y, hy, Except.ok.inj hnext⟩
  · exact ⟨y, hy, Except.ok.inj hnext⟩
  · obtain ⟨u, hu, hrest⟩ := exists_of_bind_ok hnext
    obtain ⟨v, hv, hsum⟩ := exists_of_bind_ok hrest
    have hmem : v ∈ Vec.ofCoords '' C := h [k₀, k₁] k₂ [] rfl u v hu hv
    rw [map_third] at hsum
    exact add_scale_mem hC hy (by norm_num) (by norm_num) (by norm_num) hmem hsum
  · exact ⟨y, hy, Except.ok.inj hnext⟩

/-- The slope evaluated at the state of a stage leads from there into the set. -/
theorem moved_mem (hkeeps : system.EulerKeeps dt (stageTimes time dt) C) {state : Vec ℝ}
    (hstate : state ∈ Vec.ofCoords '' C) (stage : Nat) {buffer : Vec ℝ}
    (hbuffer : system.Reused buffer) (env : σ)
    (hdone : (system.velocity state (stageTime .ssprk3 time dt stage) buffer env).1.ending = .done)
    {next : Vec ℝ}
    (hnext : moved state dt
      (system.velocity state (stageTime .ssprk3 time dt stage) buffer env).1.value = .ok next) :
    next ∈ Vec.ofCoords '' C := by
  obtain ⟨z, hz, rfl⟩ := hstate
  obtain ⟨z', rfl⟩ := Vec.exists_ofCoords ((size_moved hnext).trans (Vec.size_ofCoords z))
  have hstep : system.EulerStep dt (stageTime .ssprk3 time dt stage) z z' :=
    ⟨buffer, env, hbuffer, hdone, hnext⟩
  exact ⟨z', hkeeps _ (stageTime_mem time dt stage) z hz z' hstep, rfl⟩

theorem evaluateStages_mem (hC : Convex ℝ C) (hy : y ∈ C)
    (hkeeps : system.EulerKeeps dt (stageTimes time dt) C) {buffers : List (Vec ℝ)}
    (hbuffers : ∀ buffer ∈ buffers, system.Reused buffer) (hslopes : Forward C y dt slopes) :
    Logs (evaluateStages system.sampled .ssprk3 (.ofCoords y) time dt buffers slopes)
      fun samples outcome => (∀ sample ∈ samples, sample.state ∈ Vec.ofCoords '' C) ∧
        (outcome.ending = .done → Forward C y dt outcome.value) := by
  induction buffers generalizing slopes with
  | nil => exact .pure ⟨by simp, fun _ => hslopes⟩
  | cons buffer buffers ih =>
      obtain ⟨hbuffer, hbuffers⟩ := List.forall_mem_cons.1 hbuffers
      unfold evaluateStages
      cases hstate : stageState .ssprk3 (.ofCoords y) dt slopes with
      | error cause => exact .pure ⟨by simp, by simp⟩
      | ok state =>
          have hmem := hslopes.stageState_mem hC hy hstate
          have hvelocity : Logs
              (system.sampled.velocity state (stageTime .ssprk3 time dt slopes.length) buffer)
              fun samples slope => (∀ sample ∈ samples, sample.state ∈ Vec.ofCoords '' C) ∧
                (slope.ending = .done → Forward C y dt (slopes ++ [slope.value])) := by
            refine ⟨fun env => ⟨_, rfl, ?_, fun hdone => ?_⟩⟩
            · exact List.forall_mem_singleton.2 hmem
            · exact hslopes.concat hstate fun next =>
                moved_mem hkeeps hmem slopes.length hbuffer env.2 hdone
          refine hvelocity.bind ?_
          rintro ⟨slope, ending⟩ samples ⟨hsamples, hforward⟩
          cases ending with
          | failed cause => exact .pure ⟨by rwa [List.append_nil], by simp⟩
          | fault cause => exact .pure ⟨by rwa [List.append_nil], by simp⟩
          | done =>
              refine (ih hbuffers (hforward rfl)).weaken fun more outcome hmore => ?_
              exact ⟨List.forall_mem_append.2 ⟨hsamples, hmore.1⟩, hmore.2⟩

theorem attempt_mem [Journal ℝ σ] (hC : Convex ℝ C) (hy : y ∈ C)
    (hkeeps : system.EulerKeeps dt (stageTimes time dt) C) {stepper : ExplicitStepper ℝ}
    (hused : Used system .ssprk3 stepper) (step : Nat) :
    Logs (attempt system.sampled stepper (.ofCoords y) time dt step) fun samples outcome =>
      (∀ sample ∈ samples, sample.state ∈ Vec.ofCoords '' C) ∧
        outcome.value.2 ∈ Vec.ofCoords '' C := by
  obtain ⟨hscheme, -, hreused⟩ := hused.reused
  have hlive : Vec.ofCoords y ∈ Vec.ofCoords '' C := ⟨y, hy, rfl⟩
  refine (Logs.note _).silently fun _ => ?_
  rw [hscheme]
  refine (evaluateStages_mem hC hy hkeeps hreused .nil).bind ?_
  rintro ⟨slopes, ending⟩ samples ⟨hsamples, hforward⟩
  refine Logs.weaken (Q := fun more outcome => more = [] ∧ outcome.value.2 ∈ Vec.ofCoords '' C)
    ?_ ?_
  · cases ending with
    | failed cause => exact .pure ⟨rfl, hlive⟩
    | fault cause => exact .pure ⟨rfl, hlive⟩
    | done =>
        dsimp only
        cases hnext : finalState .ssprk3 (.ofCoords y) dt slopes with
        | error cause => exact .pure ⟨rfl, hlive⟩
        | ok next => exact .pure ⟨rfl, (hforward rfl).finalState_mem hC hy hnext⟩
  · rintro _ outcome ⟨rfl, hmem⟩
    rw [List.append_nil]
    exact ⟨hsamples, hmem⟩

/-- The states a step evaluates, and the one it leads to. -/
theorem attempt_states_mem [Journal ℝ σ] (hC : Convex ℝ C) (hy : y ∈ C)
    (hkeeps : system.EulerKeeps dt (stageTimes time dt) C) {stepper : ExplicitStepper ℝ}
    (hused : Used system .ssprk3 stepper) (step : Nat) (env : σ) :
    let recorded := attempt system.sampled stepper (.ofCoords y) time dt step ([], env)
    ∀ state ∈ recorded.2.1.map (·.state) ++ [recorded.1.value.2],
      state ∈ Vec.ofCoords '' C := by
  intro recorded
  obtain ⟨samples, hsamples, hevaluated, hlive⟩ :=
    (attempt_mem hC hy hkeeps hused step).holds ([], env)
  have hlog : recorded.2.1 = samples := hsamples.trans (List.nil_append samples)
  rw [hlog]
  exact List.forall_mem_append.2
    ⟨List.forall_mem_map.2 hevaluated, List.forall_mem_singleton.2 hlive⟩

end Stages

end ExplicitStepper

/-! ## Runs whose steps respect a preorder -/

/-- The states that were shown. -/
def Trace.states {σ α β : Type} (trace : Trace σ α β) : List (Vec α) :=
  trace.shown.map (·.2.2)

namespace Run

section Preorders

variable {R : Vec ℝ → Vec ℝ → Prop}

/-- Each of the initial state, the states shown and the live state is related to all that
come after it. -/
def Descends (R : Vec ℝ → Vec ℝ → Prop) (initial live : Vec ℝ) (trace : Trace σ ℝ Unit) : Prop :=
  (initial :: trace.states ++ [live]).Pairwise R

variable {initial live next : Vec ℝ} {trace : Trace σ ℝ Unit}

theorem Descends.attempted (h : Descends R initial live trace)
    (htrans : ∀ u v w, R u v → R v w → R u w) (hnext : R live next) (trial : Trial σ ℝ) :
    Descends R initial next (trace ++ [.attempted trial]) := by
  obtain ⟨hbefore, -, hlive⟩ := List.pairwise_append.1 h
  rw [Descends, Trace.states, Trace.shown_attempted]
  refine List.pairwise_append.2 ⟨hbefore, List.pairwise_singleton R next, ?_⟩
  intro u hu v hv
  obtain rfl := List.mem_singleton.1 hv
  exact htrans u live v (hlive u hu live (List.mem_singleton_self live)) hnext

theorem Descends.observed (h : Descends R initial live trace) (hrefl : ∀ u, R u u) (step : Nat)
    (time : ℝ) : Descends R initial live (trace ++ [.observed step time live]) := by
  obtain ⟨-, -, hlive⟩ := List.pairwise_append.1 h
  rw [Descends, Trace.states, Trace.shown_observed, List.map_append, ← List.cons_append]
  refine List.pairwise_append.2 ⟨h, List.pairwise_singleton R live, ?_⟩
  intro u hu v hv
  obtain rfl := List.mem_singleton.1 hv
  rcases List.mem_append.1 hu with hbefore | hlast
  · exact hlive u hbefore v hv
  · rw [List.mem_singleton.1 hlast]
    exact hrefl v

variable {stepper : Steppable σ ℝ} {observer : Observer σ ℝ} {P : σ → Prop} {start dt : ℝ}
  {count : Nat} (hrefl : ∀ u, R u u) (htrans : ∀ u v w, R u v → R v w → R u w)
  (hobserve : ∀ k time live, Ensures P (observer k time live) fun _ => P)
  (hstep : ∀ k < count, ∀ live, Ensures P (stepper.step live (start + k * dt) dt (k + 1))
    fun outcome env => R live outcome.value ∧ P env)

include hrefl hobserve in
theorem observe_descends (k : Nat) (time : ℝ) :
    Ensures (fun env => Descends R initial live env.1 ∧ P env.2) (observer.traced Unit k time live)
      fun _ env => Descends R initial live env.1 ∧ P env.2 :=
  ⟨fun env henv => ⟨henv.1.observed hrefl k time, (hobserve k time live).holds env.2 henv.2⟩⟩

include htrans hstep in
theorem attempt_descends {k : Nat} (hk : k < count) :
    Ensures (fun env => Descends R initial live env.1 ∧ P env.2)
      ((stepper.traced Unit).step live (start + k * dt) dt (k + 1))
      fun outcome env => Descends R initial outcome.value env.1 ∧ P env.2 := by
  constructor
  intro env henv
  obtain ⟨hnext, hafter⟩ := (hstep k hk live).holds env.2 henv.2
  exact ⟨henv.1.attempted htrans hnext _, hafter⟩

include hrefl htrans hobserve hstep

theorem stepsFrom_descends (initial live : Vec ℝ) (remaining : Nat) {k : Nat}
    (hk : k + remaining = count) :
    Ensures (fun env => Descends R initial live env.1 ∧ P env.2)
      (stepsFrom (stepper.traced Unit) (observer.traced Unit) start dt remaining k (start + k * dt)
        live)
      fun run env => Descends R initial run.live env.1 ∧ P env.2 := by
  induction remaining generalizing k live with
  | zero => exact .pure fun _ henv => henv
  | succ remaining ih =>
      have hbefore : k < count := by omega
      refine (attempt_descends htrans hstep hbefore).bind ?_
      rintro ⟨value, ending⟩
      cases ending with
      | failed cause => exact .pure fun _ henv => henv
      | fault cause => exact .pure fun _ henv => henv
      | done => exact (observe_descends hrefl hobserve ..).bind fun _ => ih _ (by omega)

theorem steps_descends :
    Ensures (fun env => env.1 = [] ∧ P env.2)
      (steps (stepper.traced Unit) (observer.traced Unit) start dt count initial)
      fun run env => Descends R initial run.live env.1 := by
  have hopen : ∀ env : Trace σ ℝ Unit × σ, env.1 = [] ∧ P env.2 →
      Descends R initial initial env.1 ∧ P env.2 := by
    rintro ⟨_, env⟩ ⟨rfl, henv⟩
    exact ⟨List.pairwise_pair.2 (hrefl initial), henv⟩
  unfold steps
  cases TimeGrid.checkDt dt 1 with
  | error cause => exact .pure fun env henv => (hopen env henv).1
  | ok _ =>
      have hfrom := stepsFrom_descends hrefl htrans hobserve hstep initial initial count
        (Nat.zero_add count)
      rw [Nat.cast_zero, zero_mul, add_zero] at hfrom
      refine ((observe_descends hrefl hobserve 0 start).weaken hopen).bind fun _ => ?_
      exact ⟨fun env henv => (hfrom.holds env henv).1⟩

end Preorders

end Run

/-! ## Strong stability -/

namespace ExplicitStepper

variable [Journal ℝ σ] {system : ContinuousSystem σ ℝ} {C : Set (Fin n → ℝ)} {y : Fin n → ℝ}
  {dt : ℝ} {stepper : ExplicitStepper ℝ}

/-- The states have coordinates, which lie in every set that the states lie in. -/
theorem exists_coords {states : List (Vec ℝ)} (h : ∀ state ∈ states, state ∈ Vec.ofCoords '' C) :
    ∃ zs : List (Fin n → ℝ), states = zs.map .ofCoords ∧
      ∀ {D : Set (Fin n → ℝ)}, (∀ state ∈ states, state ∈ Vec.ofCoords '' D) →
        ∀ z ∈ zs, z ∈ D := by
  have hsize (state : Vec ℝ) (hstate : state ∈ states) : state.size = n := by
    obtain ⟨z, -, rfl⟩ := h state hstate
    exact Vec.size_ofCoords z
  obtain ⟨zs, rfl⟩ := Vec.exists_map_ofCoords hsize
  refine ⟨zs, rfl, fun hD z hz => ?_⟩
  exact Vec.ofCoords_injective.mem_set_image.1 (hD _ (List.mem_map_of_mem hz))

/-- A state of the set leads to one where the functional is not greater. -/
def Lowers (C : Set (Fin n → ℝ)) (φ : (Fin n → ℝ) → ℝ) (u v : Vec ℝ) : Prop :=
  ∀ z ∈ C, u = .ofCoords z → ∃ z' ∈ C, v = .ofCoords z' ∧ φ z' ≤ φ z

theorem Lowers.le {φ : (Fin n → ℝ) → ℝ} {z z' : Fin n → ℝ}
    (h : Lowers C φ (.ofCoords z) (.ofCoords z')) (hz : z ∈ C) : φ z' ≤ φ z := by
  obtain ⟨z'', -, hz'', hle⟩ := h z hz rfl
  rwa [Vec.ofCoords_injective hz'']

theorem attempt_lowers {φ : (Fin n → ℝ) → ℝ} (hφ : ConvexOn ℝ C φ) {time : ℝ}
    (hkeeps : system.EulerKeeps dt (stageTimes time dt) C)
    (hlowers : system.EulerLowers dt (stageTimes time dt) C φ)
    (hused : Used system .ssprk3 stepper) (live : Vec ℝ) (step : Nat) (env : σ) :
    Lowers C φ live (attempt system stepper live time dt step env).1.value.2 := by
  rintro z hz rfl
  have hlogs := attempt_mem (hφ.convex_le (φ z)) ⟨hz, le_rfl⟩ (hkeeps.sublevel hlowers (φ z))
    hused step
  obtain ⟨-, z', ⟨hz', hle⟩, hvalue⟩ :=
    hlogs.of_actsAs (attempt_actsAs system.velocity_sampled stepper _ time dt step) env
  exact ⟨z', hz', hvalue.symm, hle⟩

/-- The times of the stages of a run. -/
def runTimes (start dt : ℝ) (count : Nat) : Set ℝ :=
  {time | ∃ k < count, time ∈ stageTimes (start + k * dt) dt}

theorem steps_lowers {φ : (Fin n → ℝ) → ℝ} (hφ : ConvexOn ℝ C φ) {start : ℝ} {count : Nat}
    (hkeeps : system.EulerKeeps dt (runTimes start dt count) C)
    (hlowers : system.EulerLowers dt (runTimes start dt count) C φ)
    (hused : Used system .ssprk3 stepper) (observer : Run.Observer σ ℝ) (initial : Vec ℝ)
    (env : σ) :
    let traced := Run.steps ((steppable system .ssprk3).traced Unit)
      ((observer.beside _).traced Unit) start dt count initial ([], stepper, env)
    Run.Descends (Lowers C φ) initial traced.1.live traced.2.1 := by
  have hrefl (u : Vec ℝ) : Lowers C φ u u := fun z hz hu => ⟨z, hz, hu, le_rfl⟩
  have htrans (u v w : Vec ℝ) (huv : Lowers C φ u v) (hvw : Lowers C φ v w) :
      Lowers C φ u w := by
    intro z hz hu
    obtain ⟨z', hz', hv, hle⟩ := huv z hz hu
    obtain ⟨z'', hz'', hw, hle'⟩ := hvw z' hz' hv
    exact ⟨z'', hz'', hw, hle'.trans hle⟩
  have hstep (k : Nat) (hk : k < count) (live : Vec ℝ) :
      Ensures (fun used => Used system .ssprk3 used.1)
        ((steppable system .ssprk3).step live (start + k * dt) dt (k + 1))
        fun outcome used => Lowers C φ live outcome.value ∧ Used system .ssprk3 used.1 := by
    constructor
    intro used hused
    refine ⟨attempt_lowers hφ (fun time htime => hkeeps time ⟨k, hk, htime⟩)
      (fun time htime => hlowers time ⟨k, hk, htime⟩) hused live (k + 1) used.2, ?_⟩
    exact hused.attempted ..
  exact (Run.steps_descends hrefl htrans (fun _ _ _ => ⟨fun _ hused => hused⟩) hstep).holds
    ([], stepper, env) ⟨rfl, hused⟩

/-- Where forward Euler steps do not leave a convex set, the stages of a step of the
strong-stability preserving scheme do not leave it, nor does the step itself, nor what a
run shows.  Convex functionals that Euler steps do not increase do not grow either. -/
theorem ssprk3_preserves_stability (hC : Convex ℝ C) (hy : y ∈ C)
    (hused : Used system .ssprk3 stepper) (start dt : ℝ) (env : σ) :
    (system.EulerKeeps dt (stageTimes start dt) C → ∀ step,
      let recorded := attempt system.sampled stepper (.ofCoords y) start dt step ([], env)
      (recorded.1, recorded.2.2) = attempt system stepper (.ofCoords y) start dt step env ∧
        ∃ zs : List (Fin n → ℝ),
          recorded.2.1.map (·.state) ++ [recorded.1.value.2] = zs.map .ofCoords ∧
          (∀ z ∈ zs, z ∈ C) ∧
          ∀ φ, ConvexOn ℝ C φ → system.EulerLowers dt (stageTimes start dt) C φ →
            ∀ z ∈ zs, φ z ≤ φ y) ∧
      ∀ count, system.EulerKeeps dt (runTimes start dt count) C → ∀ observer : Run.Observer σ ℝ,
        let traced := Run.steps ((steppable system .ssprk3).traced Unit)
          ((observer.beside _).traced Unit) start dt count (.ofCoords y) ([], stepper, env)
        (traced.1, traced.2.2) = Run.steps (steppable system .ssprk3) (observer.beside _) start dt
            count (.ofCoords y) (stepper, env) ∧
          ∃ zs : List (Fin n → ℝ),
            traced.2.1.states ++ [traced.1.live] = zs.map .ofCoords ∧ (∀ z ∈ zs, z ∈ C) ∧
            ∀ φ, ConvexOn ℝ C φ → system.EulerLowers dt (runTimes start dt count) C φ →
              (y :: zs).Pairwise fun z z' => φ z' ≤ φ z := by
  refine ⟨fun hkeeps step => ?_, fun count hkeeps observer => ?_⟩
  · intro recorded
    have hstates := attempt_states_mem hC hy hkeeps hused step env
    obtain ⟨zs, hzs, hcoords⟩ := exists_coords hstates
    refine ⟨?_, zs, hzs, hcoords hstates, fun φ hφ hlowers z hz => ?_⟩
    · exact (attempt_actsAs system.velocity_sampled stepper _ start dt step).eq ([], env)
    · have hsublevel := attempt_states_mem (hφ.convex_le (φ y)) ⟨hy, le_rfl⟩
        (hkeeps.sublevel hlowers (φ y)) hused step env
      exact (hcoords hsublevel z hz).2
  · intro traced
    have hdescends {φ : (Fin n → ℝ) → ℝ} (hφ : ConvexOn ℝ C φ)
        (hlowers : system.EulerLowers dt (runTimes start dt count) C φ) :
        Run.Descends (Lowers C φ) (.ofCoords y) traced.1.live traced.2.1 :=
      steps_lowers hφ hkeeps hlowers hused observer _ env
    have hstates : ∀ state ∈ traced.2.1.states ++ [traced.1.live], state ∈ Vec.ofCoords '' C := by
      intro state hstate
      have hconst := hdescends (convexOn_const 0 hC) fun _ _ _ _ _ _ => le_rfl
      obtain ⟨z, hz, rfl, -⟩ := (List.pairwise_cons.1 hconst).1 state hstate y hy rfl
      exact ⟨z, hz, rfl⟩
    obtain ⟨zs, hzs, hcoords⟩ := exists_coords hstates
    have hmem : ∀ z ∈ y :: zs, z ∈ C := List.forall_mem_cons.2 ⟨hy, hcoords hstates⟩
    refine ⟨?_, zs, hzs, hcoords hstates, fun φ hφ hlowers => ?_⟩
    · exact (Run.steps_traced (steppable system .ssprk3) (observer.beside _) _ start dt count).eq
        ([], stepper, env)
    · have hpairwise : ((y :: zs).map Vec.ofCoords).Pairwise (Lowers C φ) := by
        rw [List.map_cons, ← hzs]
        exact hdescends hφ hlowers
      exact (List.pairwise_map.1 hpairwise).imp_of_mem fun hz _ hle => hle.le (hmem _ hz)

/-- Decay that slows down towards zero. -/
noncomputable def slowing : VelocityField Unit 1 :=
  fun x _ => pure (.done fun i => -x i ^ 3)

theorem slowing_step {time : ℝ} {z z' : Fin 1 → ℝ}
    (h : (ContinuousSystem.ofVelocity slowing).EulerStep 1 time z z') (hz : z ∈ Set.Icc 0 1) :
    z' ∈ Set.Icc 0 1 ∧ z' 0 ≤ z 0 := by
  obtain ⟨_, -, rfl⟩ := (eulerStep_iff (hasVelocity_ofVelocity slowing) z z').1 h
  have hvalue (i : Fin 1) : (z + (1 : ℝ) • fun i => -z i ^ 3) i = z i - z i ^ 3 := by
    simp [sub_eq_add_neg]
  have hnonneg (i : Fin 1) : 0 ≤ z i ^ 3 := pow_nonneg (hz.1 i) 3
  have hle (i : Fin 1) : z i ^ 3 ≤ z i := pow_le_of_le_one (hz.1 i) (hz.2 i) (by norm_num)
  refine ⟨⟨fun i => ?_, fun i => ?_⟩, ?_⟩
  · exact (sub_nonneg.2 (hle i)).trans_eq (hvalue i).symm
  · exact (hvalue i).trans_le ((sub_le_self _ (hnonneg i)).trans (hz.2 i))
  · exact (hvalue 0).trans_le (sub_le_self _ (hnonneg 0))

theorem slowing_finished (observer : Run.Observer Unit ℝ) (initial : Fin 1 → ℝ) (count : Nat) :
    let system := ContinuousSystem.ofVelocity slowing
    (Run.steps (steppable system .ssprk3) (observer.beside _) 0 1 count (.ofCoords initial)
      (fresh .ssprk3 system, ())).1.ending = .finished count := by
  intro system
  let orbit (k : Nat) : Fin 1 → ℝ := Nat.rec initial (fun k z =>
    ExplicitScheme.ssprk3.tableau.next (fun x _ i => -x i ^ 3) z (0 + k * 1) 1) k
  have hrun := steps_of_evaluates (x := orbit) (hasVelocity_ofVelocity slowing)
    (fun _ _ _ => rfl) (.fresh : Used system .ssprk3 _) one_pos (fun _ => rfl) observer count ()
  refine (congrArg Run.ending hrun).trans ?_
  rw [zero_add, mul_one]

/-- From 1, two steps of length 1 stay between 0 and 1 and do not lead up. -/
theorem ssprk3_preserves_slowing :
    let system := ContinuousSystem.ofVelocity slowing
    let silent : Run.Observer Unit ℝ := fun _ _ _ => pure ()
    let initial : Fin 1 → ℝ := 1
    let traced := Run.steps ((steppable system .ssprk3).traced Unit)
      ((silent.beside _).traced Unit) 0 1 2 (.ofCoords initial) ([], fresh .ssprk3 system, ())
    traced.1.ending = .finished ((2 : Nat) : ℝ) ∧
      ∃ zs : List (Fin 1 → ℝ), traced.2.1.states ++ [traced.1.live] = zs.map .ofCoords ∧
        (∀ z ∈ zs, z ∈ Set.Icc 0 1) ∧ (initial :: zs).Pairwise fun z z' => z' 0 ≤ z 0 := by
  intro system silent initial traced
  have hinitial : initial ∈ Set.Icc 0 1 := ⟨zero_le_one, le_rfl⟩
  have hused : Used system .ssprk3 (fresh .ssprk3 system) := .fresh
  have hkeeps : system.EulerKeeps 1 (runTimes 0 1 2) (Set.Icc (0 : Fin 1 → ℝ) 1) :=
    fun _ _ _ hz _ hstep => (slowing_step hstep hz).1
  obtain ⟨hsame, zs, hzs, hmem, hlowers⟩ :=
    (ssprk3_preserves_stability (convex_Icc 0 1) hinitial hused 0 1 ()).2 2 hkeeps silent
  have hcoordinate : ConvexOn ℝ (Set.Icc 0 1) fun z : Fin 1 → ℝ => z 0 :=
    (LinearMap.proj (R := ℝ) (φ := fun _ : Fin 1 => ℝ) 0).convexOn (convex_Icc 0 1)
  refine ⟨?_, zs, hzs, hmem, hlowers _ hcoordinate ?_⟩
  · rw [congrArg Prod.fst hsame]
    exact slowing_finished silent initial 2
  · exact fun _ _ _ hz _ hstep => (slowing_step hstep hz).2

end ExplicitStepper

end TimeStepping
