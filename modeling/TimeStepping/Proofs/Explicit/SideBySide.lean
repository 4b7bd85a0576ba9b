import TimeStepping.Proofs.Run.Lockstep
import TimeStepping.Explicit

/-!
# Explicit steps side by side

An explicit scheme puts its states together entry by entry.  If a relation between
vectors is kept by that, and by the evaluations of the velocity, then a step keeps it, and
so does every run: `ExplicitStepper.runsInLockstep`.
-/

namespace TimeStepping

variable {σ σ' α : Type} {S : Vec α → Vec α → Prop} {E : σ → σ' → Prop}

/-! ## Relations kept entry by entry -/

/-- Both computations succeed, with related results, or both fail alike. -/
def CheckedAlike {ε β γ : Type} (R : β → γ → Prop) (first : Except ε β) (second : Except ε γ) :
    Prop :=
  (∃ value value', first = .ok value ∧ second = .ok value' ∧ R value value') ∨
    ∃ cause, first = .error cause ∧ second = .error cause

theorem CheckedAlike.ok {ε β γ : Type} {R : β → γ → Prop} {value : β} {value' : γ}
    (h : R value value') : CheckedAlike R (.ok value : Except ε β) (.ok value') :=
  .inl ⟨value, value', rfl, rfl, h⟩

theorem CheckedAlike.bind {ε β β' γ γ' : Type} {R : β → γ → Prop} {R' : β' → γ' → Prop}
    {first : Except ε β} {second : Except ε γ} {next : β → Except ε β'} {next' : γ → Except ε γ'}
    (h : CheckedAlike R first second)
    (hnext : ∀ value value', R value value' → CheckedAlike R' (next value) (next' value')) :
    CheckedAlike R' (first >>= next) (second >>= next') := by
  obtain ⟨value, value', rfl, rfl, hvalue⟩ | ⟨cause, rfl, rfl⟩ := h
  · exact hnext value value' hvalue
  · exact .inr ⟨cause, rfl, rfl⟩

/-- Operations entry by entry keep the relation. -/
structure Entrywise (S : Vec α → Vec α → Prop) : Prop where
  map (f : α → α) {x y : Vec α} (h : S x y) : S (x.map f) (y.map f)
  combine (f : α → α → α) {x x' y y' : Vec α} (h : S x y) (h' : S x' y') :
    CheckedAlike S (Vec.combine f x x') (Vec.combine f y y')

variable [Scalar α]

namespace ExplicitStepper

/-! ## Stages -/

section Parallel

variable {T : Vec α → Vec α → Prop} {R : Except Fault (Vec α) → Except Fault (Vec α) → Prop}
  (scheme : ExplicitScheme) {z y : Vec α} {dt : α} {slopes slopes' : List (Vec α)}

/-- The states of the stages, from slopes that are related one by one. -/
theorem stageState_parallel (hkept : R (.ok z) (.ok y))
    (hmoved : ∀ c k l, T k l → R (moved z c k) (moved y c l))
    (hssprk : ∀ k₀ k₁ l₀ l₁, T k₀ l₀ → T k₁ l₁ →
      R (stageState .ssprk3 z dt [k₀, k₁]) (stageState .ssprk3 y dt [l₀, l₁]))
    (hslopes : List.Forall₂ T slopes slopes') :
    R (stageState scheme z dt slopes) (stageState scheme y dt slopes') := by
  cases scheme with
  | euler =>
      cases hslopes with
      | nil => exact hkept
      | cons h₀ h => exact hkept
  | rungeKutta4 =>
      rcases hslopes with _ | ⟨h₀, _ | ⟨h₁, _ | ⟨h₂, _ | ⟨h₃, h⟩⟩⟩⟩
      · exact hkept
      · exact hmoved _ _ _ h₀
      · exact hmoved _ _ _ h₁
      · exact hmoved _ _ _ h₂
      · exact hkept
  | ssprk3 =>
      rcases hslopes with _ | ⟨h₀, _ | ⟨h₁, _ | ⟨h₂, h⟩⟩⟩
      · exact hkept
      · exact hmoved _ _ _ h₀
      · exact hssprk _ _ _ _ h₀ h₁
      · exact hkept

/-- The state after a step, likewise. -/
theorem finalState_parallel (hkept : R (.ok z) (.ok y))
    (hmoved : ∀ c k l, T k l → R (moved z c k) (moved y c l))
    (hclassical : ∀ k₀ k₁ k₂ k₃ l₀ l₁ l₂ l₃, T k₀ l₀ → T k₁ l₁ → T k₂ l₂ → T k₃ l₃ →
      R (finalState .rungeKutta4 z dt [k₀, k₁, k₂, k₃])
        (finalState .rungeKutta4 y dt [l₀, l₁, l₂, l₃]))
    (hssprk : ∀ k₀ k₁ k₂ l₀ l₁ l₂, T k₀ l₀ → T k₁ l₁ → T k₂ l₂ →
      R (finalState .ssprk3 z dt [k₀, k₁, k₂]) (finalState .ssprk3 y dt [l₀, l₁, l₂]))
    (hslopes : List.Forall₂ T slopes slopes') :
    R (finalState scheme z dt slopes) (finalState scheme y dt slopes') := by
  cases scheme with
  | euler =>
      rcases hslopes with _ | ⟨h₀, _ | ⟨h₁, h⟩⟩
      · exact hkept
      · exact hmoved _ _ _ h₀
      · exact hkept
  | rungeKutta4 =>
      rcases hslopes with _ | ⟨h₀, _ | ⟨h₁, _ | ⟨h₂, _ | ⟨h₃, _ | ⟨h₄, h⟩⟩⟩⟩⟩
      · exact hkept
      · exact hkept
      · exact hkept
      · exact hkept
      · exact hclassical _ _ _ _ _ _ _ _ h₀ h₁ h₂ h₃
      · exact hkept
  | ssprk3 =>
      rcases hslopes with _ | ⟨h₀, _ | ⟨h₁, _ | ⟨h₂, _ | ⟨h₃, h⟩⟩⟩⟩
      · exact hkept
      · exact hkept
      · exact hkept
      · exact hssprk _ _ _ _ _ _ h₀ h₁ h₂
      · exact hkept

end Parallel

section Related

variable (hS : Entrywise S) {z y : Vec α} (hy : S z y)

include hS hy

theorem moved_related (c : α) {slope slope' : Vec α} (hslope : S slope slope') :
    CheckedAlike S (moved z c slope) (moved y c slope') :=
  hS.combine _ hy (hS.map _ hslope)

variable {slopes slopes' : List (Vec α)} (dt : α)

theorem ssprkState_related {k₀ k₁ l₀ l₁ : Vec α} (h₀ : S k₀ l₀) (h₁ : S k₁ l₁) :
    CheckedAlike S (stageState .ssprk3 z dt [k₀, k₁]) (stageState .ssprk3 y dt [l₀, l₁]) := by
  refine (moved_related hS hy dt h₀).bind fun u v hu => ?_
  refine (moved_related hS hu dt h₁).bind fun w x hw => ?_
  exact hS.combine _ (hS.map _ hy) (hS.map _ hw)

theorem stageState_related (scheme : ExplicitScheme) (hslopes : List.Forall₂ S slopes slopes') :
    CheckedAlike S (stageState scheme z dt slopes) (stageState scheme y dt slopes') :=
  stageState_parallel scheme (.ok hy) (fun c _ _ h => moved_related hS hy c h)
    (fun _ _ _ _ h₀ h₁ => ssprkState_related hS hy dt h₀ h₁) hslopes

theorem finalState_related (scheme : ExplicitScheme) (hslopes : List.Forall₂ S slopes slopes') :
    CheckedAlike S (finalState scheme z dt slopes) (finalState scheme y dt slopes') := by
  refine finalState_parallel scheme (.ok hy) (fun c _ _ h => moved_related hS hy c h) ?_ ?_ hslopes
  · intro _ _ _ _ _ _ _ _ h₀ h₁ h₂ h₃
    refine (hS.combine _ h₀ (hS.map _ h₁)).bind fun k l hk => ?_
    refine (hS.combine _ hk (hS.map _ h₂)).bind fun k l hk => ?_
    refine (hS.combine _ hk h₃).bind fun k l hk => ?_
    exact moved_related hS hy _ hk
  · intro _ _ _ _ _ _ h₀ h₁ h₂
    refine (ssprkState_related hS hy dt h₀ h₁).bind fun u v hu => ?_
    refine (moved_related hS hu dt h₂).bind fun u v hu => ?_
    exact hS.combine _ (hS.map _ hy) (hS.map _ hu)

end Related

end ExplicitStepper

/-! ## Steps -/

/-- Evaluations at related states, into related buffers, end alike and leave related
buffers. -/
structure ContinuousSystem.VelocityAlike (S : Vec α → Vec α → Prop) (E : σ → σ' → Prop)
    (system : ContinuousSystem σ α) (system' : ContinuousSystem σ' α) : Prop where
  velocity {state state' buffer buffer' : Vec α} (hstate : S state state')
    (hbuffer : S buffer buffer') (time : α) :
    Parallel E (system.velocity state time buffer) (system'.velocity state' time buffer')
      fun slope slope' env env' =>
        slope.ending = slope'.ending ∧ S slope.value slope'.value ∧ E env env'

namespace ExplicitStepper

open ContinuousSystem

/-- The live states are related, and so are the slopes that are left of the steps before. -/
structure Related (S : Vec α → Vec α → Prop) (first second : Vec α × ExplicitStepper α) :
    Prop where
  live : S first.1 second.1
  scheme : first.2.scheme = second.2.scheme
  slopes : List.Forall₂ S first.2.slopes second.2.slopes

variable {system : ContinuousSystem σ α} {system' : ContinuousSystem σ' α} (hS : Entrywise S)
  (hsystem : system.VelocityAlike S E system')

include hS hsystem

theorem evaluateStages_related (scheme : ExplicitScheme) {z y : Vec α} (hy : S z y) (time dt : α)
    {buffers buffers' slopes slopes' : List (Vec α)} (hbuffers : List.Forall₂ S buffers buffers')
    (hslopes : List.Forall₂ S slopes slopes') :
    Parallel E (evaluateStages system scheme z time dt buffers slopes)
      (evaluateStages system' scheme y time dt buffers' slopes') fun stages stages' env env' =>
        stages.ending = stages'.ending ∧ List.Forall₂ S stages.value stages'.value ∧
          E env env' := by
  induction hbuffers generalizing slopes slopes' with
  | nil => exact .pure fun _ _ henv => ⟨rfl, hslopes, henv⟩
  | @cons buffer buffer' rest rest' hbuffer hrest ih =>
      obtain ⟨u, v, hu, hv, hstate⟩ | ⟨cause, hu, hv⟩ := stageState_related hS hy dt scheme hslopes
      · -- the stages are as many, so they are evaluated at the same time
        rw [evaluateStages, evaluateStages, hu, hv, hslopes.length_eq]
        refine (hsystem.velocity hstate hbuffer _).bind ?_
        rintro ⟨slope, ending⟩ ⟨slope', ending'⟩
        constructor
        rintro env env' ⟨rfl, hslope, henv⟩
        cases ending with
        | done => exact (ih (List.rel_append hslopes (.cons hslope .nil))).holds env env' henv
        | failed cause => exact ⟨rfl, List.rel_append hslopes (.cons hslope hrest), henv⟩
        | fault cause => exact ⟨rfl, List.rel_append hslopes (.cons hslope hrest), henv⟩
      · rw [evaluateStages, evaluateStages, hu, hv]
        exact .pure fun _ _ henv => ⟨rfl, List.rel_append hslopes (.cons hbuffer hrest), henv⟩

variable [Journal α σ] [Journal α σ'] (hnotes : Run.NotesAlike α E)

include hnotes

theorem attempt_related {stepper stepper' : ExplicitStepper α} {z y : Vec α}
    (h : Related S (z, stepper) (y, stepper')) (time dt : α) (step : Nat) :
    Parallel E (attempt system stepper z time dt step) (attempt system' stepper' y time dt step)
      fun outcome outcome' env env' => outcome.ending = outcome'.ending ∧
        Related S (outcome.value.2, outcome.value.1) (outcome'.value.2, outcome'.value.1) ∧
          E env env' := by
  obtain ⟨scheme, slopes⟩ := stepper
  obtain ⟨_, slopes'⟩ := stepper'
  obtain ⟨hlive, rfl, hslopes⟩ := h
  refine Parallel.bind (Q := fun _ _ => E) ⟨hnotes _⟩ fun _ _ => ?_
  refine (evaluateStages_related hS hsystem _ hlive time dt hslopes .nil).bind ?_
  rintro ⟨stages, ending⟩ ⟨stages', ending'⟩
  constructor
  rintro env env' ⟨rfl, hstages, henv⟩
  cases ending with
  | failed cause => exact ⟨rfl, ⟨hlive, rfl, hstages⟩, henv⟩
  | fault cause => exact ⟨rfl, ⟨hlive, rfl, hstages⟩, henv⟩
  | done =>
      obtain ⟨u, v, hu, hv, hnext⟩ | ⟨cause, hu, hv⟩ :=
        finalState_related hS hlive dt scheme hstages
      · simp only [hu, hv]
        exact ⟨rfl, ⟨hnext, rfl, hstages⟩, henv⟩
      · simp only [hu, hv]
        exact ⟨rfl, ⟨hlive, rfl, hstages⟩, henv⟩

theorem steppable_related (scheme : ExplicitScheme) :
    (steppable system scheme).Tandem (.fronted (Related S) E) (steppable system' scheme) := by
  constructor
  intro accepted live live' time dt
  constructor
  rintro ⟨stepper, env⟩ ⟨stepper', env'⟩ ⟨hfront, henv⟩
  obtain ⟨hending, hfront', henv'⟩ :=
    (attempt_related hS hsystem hnotes hfront time dt (accepted + 1)).holds env env' henv
  exact ⟨hending, hfront', henv'⟩

/-- Explicit runs from related live states keep them related. -/
theorem runsInLockstep (scheme : ExplicitScheme) {live live' : Vec α} (hlive : S live live')
    {stepper stepper' : ExplicitStepper α} (hscheme : stepper.scheme = stepper'.scheme)
    (hslopes : List.Forall₂ S stepper.slopes stepper'.slopes) {env : σ} {env' : σ'}
    (henv : E env env') :
    Run.RunsInLockstep S E (steppable system scheme) (steppable system' scheme) live live'
      (stepper, env) (stepper', env') :=
  Run.runsInLockstep_of_tandem (fun _ _ h => h.live) hnotes
    (steppable_related hS hsystem hnotes scheme) ⟨hlive, hscheme, hslopes⟩ henv

end ExplicitStepper

end TimeStepping
