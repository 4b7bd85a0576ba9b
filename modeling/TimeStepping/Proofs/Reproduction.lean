import TimeStepping.Proofs.Reduction
import TimeStepping.Proofs.Explicit.SideBySide
import TimeStepping.Proofs.Systems

/-!
# Reduced models that reproduce the full one

If the full velocity stays in the span of an orthonormal basis wherever the reduced
model evaluates it, then explicit runs of the reduced model reproduce those of the
full system.  The states of the stages are built from the live state and the slopes
by additions and scalings, and what matters is how often the reference is contained
in each of them: once in every state, not at all in a slope.  `Stands` carries this
count along.
-/

namespace TimeStepping

open Matrix

variable {σ : Type}

/-! ## Agreement -/

/-- The two outcomes end alike, and leave values related by `R`, and by `S` as well
if they are completed. -/
structure EndsAlike {α β γ : Type} (R S : β → γ → Prop) (first : Outcome α β)
    (second : Outcome α γ) : Prop where
  ending : first.ending = second.ending
  value : R first.value second.value
  done (h : second.ending = .done) : S first.value second.value

/-! ## Vectors that stand for others -/

section Standing

variable {n k : Nat} {Φ : Matrix (Fin n) (Fin k) ℝ} {r : Fin n → ℝ} {a b : ℝ}
  {x x' y y' z z' : Vec ℝ}

/-- The full vector is the combination of the basis that the reduced one stands for,
plus `weight` times the reference. -/
def Stands (Φ : Matrix (Fin n) (Fin k) ℝ) (r : Fin n → ℝ) (weight : ℝ)
    (reduced full : Vec ℝ) : Prop :=
  ∃ v, reduced = .ofCoords v ∧ full = .ofCoords (Φ *ᵥ v + weight • r)

theorem Stands.weighing (h : Stands Φ r a x y) (hweight : a = b) : Stands Φ r b x y :=
  hweight ▸ h

theorem Stands.scale (h : Stands Φ r a x y) (c : ℝ) :
    Stands Φ r (c * a) (Vec.scale c x) (Vec.scale c y) := by
  obtain ⟨v, rfl, rfl⟩ := h
  refine ⟨c • v, Vec.scale_ofCoords c v, ?_⟩
  rw [Vec.scale_ofCoords, smul_add, mulVec_smul, smul_smul]

theorem Stands.div (h : Stands Φ r a x y) (c : ℝ) :
    Stands Φ r (a / c) (x.map (· / c)) (y.map (· / c)) := by
  have hscale (w : Vec ℝ) : w.map (· / c) = Vec.scale c⁻¹ w := by
    simp only [Vec.scale, div_eq_inv_mul]
  rw [hscale, hscale]
  exact (h.scale c⁻¹).weighing (by ring)

theorem Stands.add (h : Stands Φ r a x y) (h' : Stands Φ r b x' y') :
    CheckedAlike (Stands Φ r (a + b)) (Vec.add x x') (Vec.add y y') := by
  obtain ⟨v, rfl, rfl⟩ := h
  obtain ⟨w, rfl, rfl⟩ := h'
  refine .inl ⟨_, _, Vec.add_ofCoords _ _, Vec.add_ofCoords _ _, v + w, rfl, ?_⟩
  rw [mulVec_add]
  congr 1
  module

/-! ## Stages -/

namespace ExplicitStepper

theorem moved_stands (hy : Stands Φ r a z y) (c : ℝ) {slope slope' : Vec ℝ}
    (hslope : Stands Φ r 0 slope slope') :
    CheckedAlike (Stands Φ r a) (moved z c slope) (moved y c slope') := by
  have hsum := hy.add (hslope.scale c)
  rwa [mul_zero, add_zero] at hsum

variable {slopes slopes' : List (Vec ℝ)} (dt : ℝ)

/-- The second intermediate state of the strong-stability preserving scheme takes the
reference three quarters of a time from the live state and one quarter from the stage. -/
theorem ssprkState_stands (hy : Stands Φ r 1 z y) {k₀ k₁ l₀ l₁ : Vec ℝ}
    (h₀ : Stands Φ r 0 k₀ l₀) (h₁ : Stands Φ r 0 k₁ l₁) :
    CheckedAlike (Stands Φ r 1) (stageState .ssprk3 z dt [k₀, k₁])
      (stageState .ssprk3 y dt [l₀, l₁]) := by
  refine (moved_stands hy dt h₀).bind fun u v hu => ?_
  refine (moved_stands hu dt h₁).bind fun w x hw => ?_
  have hsum := (hy.scale (Scalar.ratio 3 4)).add (hw.scale (Scalar.ratio 1 4))
  have hweight : Scalar.ratio 3 4 * 1 + Scalar.ratio 1 4 * 1 = (1 : ℝ) := by norm_num
  rwa [hweight] at hsum

theorem stageState_stands (scheme : ExplicitScheme) (hy : Stands Φ r 1 z y)
    (hslopes : List.Forall₂ (Stands Φ r 0) slopes slopes') :
    CheckedAlike (Stands Φ r 1) (stageState scheme z dt slopes) (stageState scheme y dt slopes') :=
  stageState_parallel scheme (.ok hy) (fun c _ _ h => moved_stands hy c h)
    (fun _ _ _ _ h₀ h₁ => ssprkState_stands dt hy h₀ h₁) hslopes

theorem finalState_stands (scheme : ExplicitScheme) (hy : Stands Φ r 1 z y)
    (hslopes : List.Forall₂ (Stands Φ r 0) slopes slopes') :
    CheckedAlike (Stands Φ r 1) (finalState scheme z dt slopes)
      (finalState scheme y dt slopes') := by
  refine finalState_parallel scheme (.ok hy) (fun c _ _ h => moved_stands hy c h)
    ?_ ?_ hslopes
  · intro _ _ _ _ _ _ _ _ h₀ h₁ h₂ h₃
    refine (h₀.add (h₁.scale _)).bind fun k l hk => ?_
    refine (hk.add (h₂.scale _)).bind fun k l hk => ?_
    refine (hk.add h₃).bind fun k l hk => ?_
    exact moved_stands hy _ (hk.weighing (by ring))
  · intro _ _ _ _ _ _ h₀ h₁ h₂
    refine (ssprkState_stands dt hy h₀ h₁).bind fun u v hu => ?_
    refine (moved_stands hu dt h₂).bind fun u v hu => ?_
    have hsum := (hy.div ((3 : Nat) : ℝ)).add (hu.scale (Scalar.ratio 2 3))
    have hweight : 1 / ((3 : Nat) : ℝ) + Scalar.ratio 2 3 * 1 = 1 := by norm_num
    rwa [hweight] at hsum

end ExplicitStepper

end Standing

/-! ## Evaluations -/

namespace Galerkin

open ExplicitStepper

variable {model : Galerkin σ ℝ} {n k : Nat} {Φ : Matrix (Fin n) (Fin k) ℝ} {r : Fin n → ℝ}

/-- Wherever the reduced model evaluates it, the full velocity is in the span of the basis. -/
def Reproducing (model : Galerkin σ ℝ) : Prop :=
  ∀ reduced full time env, model.reconstruct reduced = .ok full →
    (model.full.velocity full time model.full.velocityBuffer env).1.ending = .done →
    ∃ part, model.decode part =
      .ok (model.full.velocity full time model.full.velocityBuffer env).1.value

/-- Buffers for slopes of the reduced and of the full model. -/
def Buffers (model : Galerkin σ ℝ) (reduced full : Vec ℝ) : Prop :=
  reduced.size = model.basis.cols ∧ model.full.Reused full

namespace Coordinates

theorem exists_of_decode (h : model.Coordinates Φ r) {c slope : Vec ℝ}
    (hslope : model.decode c = .ok slope) : ∃ v : Fin k → ℝ, c = .ofCoords v := by
  unfold decode Mat.apply at hslope
  split at hslope
  · rename_i hsize
    exact Vec.exists_ofCoords (hsize.symm.trans h.cols_eq)
  · cases hslope

theorem stands_of_decode (h : model.Coordinates Φ r) {c slope : Vec ℝ}
    (hslope : model.decode c = .ok slope) : Stands Φ r 0 c slope := by
  obtain ⟨v, rfl⟩ := h.exists_of_decode hslope
  rw [h.decode_ofCoords, Except.ok.injEq] at hslope
  refine ⟨v, rfl, ?_⟩
  rw [zero_smul, add_zero, hslope]

theorem stands_iff (h : model.Coordinates Φ r) {z y : Vec ℝ} :
    Stands Φ r 1 z y ↔ model.reconstruct z = .ok y := by
  constructor
  · rintro ⟨v, rfl, rfl⟩
    rw [h.reconstruct_ofCoords, one_smul]
  · intro hy
    obtain ⟨part, hpart⟩ : ∃ part, model.decode z = .ok part := by
      cases hdecode : model.decode z with
      | ok part => exact ⟨part, rfl⟩
      | error cause =>
          rw [reconstruct, hdecode] at hy
          cases hy
    obtain ⟨v, rfl⟩ := h.exists_of_decode hpart
    rw [h.reconstruct_ofCoords, Except.ok.injEq] at hy
    exact ⟨v, rfl, by rw [one_smul, hy]⟩

theorem sizes_of_stands (h : model.Coordinates Φ r) {weight : ℝ} {z y : Vec ℝ}
    (hy : Stands Φ r weight z y) :
    z.size = model.basis.cols ∧ y.size = model.full.velocityBuffer.size := by
  obtain ⟨v, rfl, rfl⟩ := hy
  exact ⟨by rw [Vec.size_ofCoords, h.cols_eq], by rw [Vec.size_ofCoords, h.size_eq]⟩

/-- An evaluation of the reduced velocity at a state ends like the evaluation of the
full one at the state it stands for, and if completed, the slopes stand for each other. -/
theorem velocity_alike (h : model.Coordinates Φ r) (horthonormal : Φᵀ * Φ = 1)
    (hoblivious : model.full.Oblivious model.full.velocityBuffer.size)
    (hreproducing : model.Reproducing) {z y : Vec ℝ} (hy : Stands Φ r 1 z y) (time : ℝ)
    {buffer buffer' : Vec ℝ} (hbuffers : model.Buffers buffer buffer') :
    Parallel (fun env env' => env = env') (model.system.velocity z time buffer)
      (model.full.velocity y time buffer') fun slope slope' env env' =>
        EndsAlike model.Buffers (Stands Φ r 0) slope slope' ∧ env = env' := by
  constructor
  rintro env _ rfl
  have hfull := h.stands_iff.1 hy
  have hsize := (h.sizes_of_stands hy).2
  have hending := hoblivious.ending hbuffers.2 hsize time env
  have henv := hoblivious.env hbuffers.2 hsize time env
  have hleft := hbuffers.2.left y time env
  by_cases hdone : (model.full.velocity y time model.full.velocityBuffer env).1.ending = .done
  · obtain ⟨slope, hslope⟩ := hreproducing z y time env hfull hdone
    have hstands := h.stands_of_decode hslope
    have htested : model.basis.applyTranspose
        (model.full.velocity y time model.full.velocityBuffer env).1.value = .ok slope := by
      obtain ⟨v, rfl, hv⟩ := hstands
      rw [hv, h.applyTranspose_ofCoords, zero_smul, add_zero, mulVec_mulVec, horthonormal,
        one_mulVec]
    have hslope := (h.sizes_of_stands hstands).1
    have hfits : buffer.size = slope.size := hbuffers.1.trans hslope.symm
    rw [velocity_of_done time hfull (Outcome.eq_done hdone) htested hfits]
    rw [← hoblivious.value hbuffers.2 hsize time env hdone] at hstands
    exact ⟨⟨(hending.trans hdone).symm, ⟨hslope, hleft⟩, fun _ => hstands⟩, henv.symm⟩
  · rw [velocity_of_undone time hfull buffer hdone]
    exact ⟨⟨hending.symm, ⟨hbuffers.1, hleft⟩, fun h => absurd (hending.symm.trans h) hdone⟩,
      henv.symm⟩

theorem evaluateStages_alike (h : model.Coordinates Φ r) (horthonormal : Φᵀ * Φ = 1)
    (hoblivious : model.full.Oblivious model.full.velocityBuffer.size)
    (hreproducing : model.Reproducing) (scheme : ExplicitScheme) {z y : Vec ℝ}
    (hy : Stands Φ r 1 z y) (time dt : ℝ) {buffers buffers' slopes slopes' : List (Vec ℝ)}
    (hbuffers : List.Forall₂ model.Buffers buffers buffers')
    (hslopes : List.Forall₂ (Stands Φ r 0) slopes slopes')
    (hkept : List.Forall₂ model.Buffers slopes slopes') :
    Parallel (fun env env' => env = env')
      (evaluateStages model.system scheme z time dt buffers slopes)
      (evaluateStages model.full scheme y time dt buffers' slopes') fun stages stages' env env' =>
        EndsAlike (List.Forall₂ model.Buffers) (List.Forall₂ (Stands Φ r 0)) stages stages' ∧
          env = env' := by
  induction hbuffers generalizing slopes slopes' with
  | nil => exact .pure fun _ _ henv => ⟨⟨rfl, hkept, fun _ => hslopes⟩, henv⟩
  | @cons buffer buffer' rest rest' hbuffer hrest ih =>
      obtain ⟨u, v, hu, hv, hstate⟩ | ⟨cause, hu, hv⟩ := stageState_stands dt scheme hy hslopes
      · rw [evaluateStages, evaluateStages, hu, hv, hslopes.length_eq]
        refine (h.velocity_alike horthonormal hoblivious hreproducing hstate _ hbuffer).bind ?_
        rintro ⟨slope, ending⟩ ⟨slope', ending'⟩
        constructor
        rintro env env' ⟨hslope, rfl⟩
        obtain rfl : ending = ending' := hslope.ending
        have hleft := List.rel_append hkept (.cons hslope.value hrest)
        cases ending with
        | done =>
            have hslopes' := List.rel_append hslopes (.cons (hslope.done rfl) .nil)
            have hkept' := List.rel_append hkept (.cons hslope.value .nil)
            exact (ih hslopes' hkept').holds env env rfl
        | failed cause =>
            refine ⟨⟨rfl, hleft, fun hdone => ?_⟩, rfl⟩
            cases hdone
        | fault cause =>
            refine ⟨⟨rfl, hleft, fun hdone => ?_⟩, rfl⟩
            cases hdone
      · rw [evaluateStages, evaluateStages, hu, hv]
        have hleft := List.rel_append hkept (.cons hbuffer hrest)
        refine .pure fun _ _ henv => ⟨⟨rfl, hleft, fun hdone => ?_⟩, henv⟩
        cases hdone

end Coordinates

/-! ## Runs -/

/-- The live state of the reduced run stands for that of the full run, and apart from
the slopes, of which only the buffers correspond, all else is the same. -/
structure Mirrors (model : Galerkin σ ℝ)
    (reduced full : Vec ℝ × ExplicitStepper ℝ × σ) : Prop where
  live : model.reconstruct reduced.1 = .ok full.1
  scheme : reduced.2.1.scheme = full.2.1.scheme
  slopes : List.Forall₂ model.Buffers reduced.2.1.slopes full.2.1.slopes
  env : reduced.2.2 = full.2.2

theorem Mirrors.fresh (scheme : ExplicitScheme) {z y : Vec ℝ} (h : model.reconstruct z = .ok y)
    (env : σ) :
    model.Mirrors (z, fresh scheme model.system, env) (y, fresh scheme model.full, env) where
  live := h
  scheme := rfl
  slopes := by
    refine List.forall₂_iff_get.2 ⟨by simp [ExplicitStepper.fresh], fun i hi hi' => ⟨?_, ?_⟩⟩
    · simp [ExplicitStepper.fresh, system, Vec.zeros]
    · simpa [ExplicitStepper.fresh] using .new
  env := rfl

theorem observer_mirrors {observer observer' : Run.Observer σ ℝ}
    (h : ∀ step time z y, model.reconstruct z = .ok y →
      observer step time z = observer' step time y) :
    (observer.beside (ExplicitStepper ℝ)).Tandem (fun _ => model.Mirrors)
      (observer'.beside (ExplicitStepper ℝ)) := by
  constructor
  intro accepted live live' time
  constructor
  rintro ⟨stepper, env⟩ ⟨stepper', env'⟩ ⟨hlive, hscheme, hslopes, rfl⟩
  refine ⟨hlive, hscheme, hslopes, ?_⟩
  change (observer accepted time live env).2 = (observer' accepted time live' env).2
  rw [h accepted time live live' hlive]

variable [Journal ℝ σ]

section Steps

variable (horthonormal : model.Orthonormal)
  (hoblivious : model.full.Oblivious model.full.velocityBuffer.size)
  (hreproducing : model.Reproducing)

include horthonormal hoblivious hreproducing

theorem attempt_mirrors {stepper stepper' : ExplicitStepper ℝ} {z y : Vec ℝ}
    (hlive : model.reconstruct z = .ok y) (hscheme : stepper.scheme = stepper'.scheme)
    (hslopes : List.Forall₂ model.Buffers stepper.slopes stepper'.slopes) (time dt : ℝ)
    (step : Nat) :
    Parallel (fun env env' : σ => env = env') (attempt model.system stepper z time dt step)
      (attempt model.full stepper' y time dt step) fun outcome outcome' env env' =>
        outcome.ending = outcome'.ending ∧ model.Mirrors (outcome.value.2, outcome.value.1, env)
          (outcome'.value.2, outcome'.value.1, env') := by
  obtain ⟨Φ, r, h⟩ := model.exists_coordinates
  have hΦ := h.orthonormal_iff.1 horthonormal
  have hy := h.stands_iff.2 hlive
  obtain ⟨scheme, slopes⟩ := stepper
  obtain ⟨_, slopes'⟩ := stepper'
  obtain rfl : scheme = _ := hscheme
  refine Parallel.bind (Q := fun _ _ env env' => env = env') ⟨?_⟩ fun _ _ => ?_
  · rintro env _ rfl
    rfl
  refine (h.evaluateStages_alike hΦ hoblivious hreproducing scheme hy time dt hslopes
    .nil .nil).bind ?_
  rintro ⟨stages, ending⟩ ⟨stages', ending'⟩
  constructor
  rintro env _ ⟨hstages, rfl⟩
  obtain rfl : ending = ending' := hstages.ending
  cases ending with
  | failed cause => exact ⟨rfl, hlive, rfl, hstages.value, rfl⟩
  | fault cause => exact ⟨rfl, hlive, rfl, hstages.value, rfl⟩
  | done =>
      obtain ⟨u, v, hu, hv, hnext⟩ | ⟨cause, hu, hv⟩ :=
        finalState_stands dt scheme hy (hstages.done rfl)
      · simp only [hu, hv]
        exact ⟨rfl, h.stands_iff.1 hnext, rfl, hstages.value, rfl⟩
      · simp only [hu, hv]
        exact ⟨rfl, hlive, rfl, hstages.value, rfl⟩

theorem steppable_mirrors (scheme : ExplicitScheme) :
    (steppable model.system scheme : Steppable (ExplicitStepper ℝ × σ) ℝ).Tandem
      (fun _ => model.Mirrors) (steppable model.full scheme) := by
  constructor
  intro accepted live live' time dt
  constructor
  rintro ⟨stepper, env⟩ ⟨stepper', env'⟩ ⟨hlive, hscheme, hslopes, henv⟩
  have hattempt := attempt_mirrors horthonormal hoblivious hreproducing hlive hscheme hslopes
    time dt (accepted + 1)
  exact hattempt.holds env env' henv

end Steps

/-- Where the full velocity stays in the span of an orthonormal basis, an explicit run
of the reduced model and the run of the full system from the reconstructed initial
state make the same attempts and end alike, the state of the full run being the
reconstruction of that of the reduced run at every attempt and every observation. -/
theorem explicit_runs_reproduce (model : Galerkin σ ℝ) (horthonormal : model.Orthonormal)
    (hoblivious : model.full.Oblivious model.full.velocityBuffer.size)
    (hreproducing : model.Reproducing) (scheme : ExplicitScheme)
    (observer observer' : Run.Observer σ ℝ)
    (hobserver : ∀ step time z y, model.reconstruct z = .ok y →
      observer step time z = observer' step time y)
    (start dt : ℝ) (count : Nat) {initial : Vec ℝ} (hinitial : initial.size = model.basis.cols)
    (env : σ) :
    let small := steppable model.system scheme
    let large := steppable model.full scheme
    let watch := observer.beside (ExplicitStepper ℝ)
    let watch' := observer'.beside (ExplicitStepper ℝ)
    let begun := fresh scheme model.system
    let begun' := fresh scheme model.full
    ∃ whole, model.reconstruct initial = .ok whole ∧
      let reduced :=
        Run.steps (small.traced Unit) (watch.traced Unit) start dt count initial ([], begun, env)
      let full :=
        Run.steps (large.traced Unit) (watch'.traced Unit) start dt count whole ([], begun', env)
      (reduced.1, reduced.2.2) = Run.steps small watch start dt count initial (begun, env) ∧
        (full.1, full.2.2) = Run.steps large watch' start dt count whole (begun', env) ∧
        reduced.1.ending = full.1.ending ∧ model.reconstruct reduced.1.live = .ok full.1.live ∧
        Trace.Alike (fun z y => model.reconstruct z = .ok y) reduced.2.1 full.2.1 := by
  intro small large watch watch' begun begun'
  obtain ⟨Φ, r, h⟩ := model.exists_coordinates
  obtain ⟨v, rfl⟩ := Vec.exists_ofCoords hinitial
  obtain ⟨whole, hwhole⟩ : ∃ whole, model.reconstruct (.ofCoords v) = .ok whole :=
    ⟨_, h.reconstruct_ofCoords v⟩
  let S : Vec ℝ → Vec ℝ → Prop := fun z y => model.reconstruct z = .ok y
  let L : Correspondence (ExplicitStepper ℝ × σ) (ExplicitStepper ℝ × σ) ℝ :=
    fun _ => model.Mirrors
  have hlive : ∀ accepted first second, L accepted first second → S first.1 second.1 :=
    fun _ _ _ hmirrors => hmirrors.live
  have hstepper : (small.traced Unit).Tandem (L.traced Unit S) (large.traced Unit) :=
    Run.stepper_lockstep hlive (steppable_mirrors horthonormal hoblivious hreproducing scheme)
  have hwatch : (watch.traced Unit).Tandem (L.traced Unit S) (watch'.traced Unit) :=
    Run.observer_lockstep hlive (observer_mirrors hobserver)
  have hruns := Run.steps_tandem hstepper hwatch start dt count (.ofCoords v) whole
  obtain ⟨hending, accepted, hmirrors, htraces⟩ :=
    hruns.holds ([], begun, env) ([], begun', env) ⟨.fresh scheme hwhole env, .nil⟩
  exact ⟨whole, hwhole, (Run.steps_traced ..).eq _, (Run.steps_traced ..).eq _, hending,
    hmirrors.live, htraces⟩

theorem decaying_oblivious : decaying.full.Oblivious decaying.full.velocityBuffer.size where
  env _ _ _ _ := rfl
  ending _ _ _ _ := rfl
  value _ _ _ _ _ := rfl

theorem decaying_reproducing : decaying.Reproducing := by
  intro reduced full time env _ _
  refine ⟨.ofCoords ![-full.getD 0 0], ?_⟩
  rw [decaying_coordinates.decode_ofCoords]
  change _ = Except.ok (Vec.ofCoords ![-full.getD 0 0, 0])
  congr 2
  funext i
  fin_cases i
  · simp
  · simp

theorem explicit_runs_reproduce_decaying :
    let small := steppable decaying.system .ssprk3
    let large := steppable decaying.full .ssprk3
    let silent : Run.Observer Unit ℝ := fun _ _ _ => pure ()
    let watch := silent.beside (ExplicitStepper ℝ)
    ∃ whole, decaying.reconstruct (.ofCoords ![3]) = .ok whole ∧
      let reduced := Run.steps (small.traced Unit) (watch.traced Unit) 0 (1 / 2) 2 (.ofCoords ![3])
        ([], fresh .ssprk3 decaying.system, ())
      let full := Run.steps (large.traced Unit) (watch.traced Unit) 0 (1 / 2) 2 whole
        ([], fresh .ssprk3 decaying.full, ())
      reduced.1.ending = full.1.ending ∧
        Trace.Alike (fun z y => decaying.reconstruct z = .ok y) reduced.2.1 full.2.1 := by
  intro small large silent watch
  have hinitial : (Vec.ofCoords ![(3 : ℝ)]).size = decaying.basis.cols := by
    rw [decaying_coordinates.cols_eq, Vec.size_ofCoords]
  obtain ⟨whole, hwhole, -, -, hending, -, htraces⟩ :=
    explicit_runs_reproduce decaying decaying_orthonormal decaying_oblivious decaying_reproducing
      .ssprk3 silent silent (fun _ _ _ _ _ => rfl) 0 (1 / 2) 2 hinitial ()
  exact ⟨whole, hwhole, hending, htraces⟩

end Galerkin

end TimeStepping
