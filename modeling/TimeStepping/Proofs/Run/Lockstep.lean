import Mathlib.Data.List.Forall2
import TimeStepping.Proofs.Run.Trace

/-!
# Runs in lockstep

Two runs whose callbacks correspond do the same things in the same order, on live
states that are related throughout.  The correspondence of the plain runs is carried
over to the traced ones, `Correspondence.traced`, so that the lemmas about runs in
tandem relate their traces deed by deed: `steps_lockstep`, `toTime_lockstep`,
`stepsRetrying_lockstep`, `toTimeRetrying_lockstep`.
-/

namespace TimeStepping

variable {σ σ' α : Type}

/-- The same deed, done on related states. -/
inductive Deed.Alike {β : Type} (S : Vec α → Vec α → Prop) : Deed σ α β → Deed σ' α β → Prop
  | asked (step : Nat) (time : α) (answer : β) :
      Alike S (.asked step time answer) (.asked step time answer)
  | attempted {trial : Trial σ α} {trial' : Trial σ' α} (hstep : trial.step = trial'.step)
      (htime : trial.time = trial'.time) (hdt : trial.dt = trial'.dt)
      (hlive : S trial.live trial'.live) (hending : trial.outcome.ending = trial'.outcome.ending)
      (hvalue : S trial.outcome.value trial'.outcome.value) :
      Alike S (.attempted trial) (.attempted trial')
  | observed (step : Nat) (time : α) {live live' : Vec α} (h : S live live') :
      Alike S (.observed step time live) (.observed step time live')

/-- The two traces list the same deeds, done on related states. -/
abbrev Trace.Alike {β : Type} (S : Vec α → Vec α → Prop) (first : Trace σ α β)
    (second : Trace σ' α β) : Prop :=
  List.Forall₂ (Deed.Alike S) first second

theorem Trace.Alike.concat {β : Type} {S : Vec α → Vec α → Prop} {first : Trace σ α β}
    {second : Trace σ' α β} {deed : Deed σ α β} {deed' : Deed σ' α β}
    (h : Trace.Alike S first second) (hdeed : deed.Alike S deed') :
    Trace.Alike S (first ++ [deed]) (second ++ [deed']) :=
  List.rel_append h (.cons hdeed .nil)

/-- The correspondence behind traces that are alike. -/
def Correspondence.traced (β : Type) (S : Vec α → Vec α → Prop) (L : Correspondence σ σ' α) :
    Correspondence (Trace σ α β × σ) (Trace σ' α β × σ') α :=
  fun accepted first second =>
    L accepted (first.1, first.2.2) (second.1, second.2.2) ∧ Trace.Alike S first.2.1 second.2.1

/-- Live states and steppers related by `F`, and environments behind the steppers related
by `E`. -/
def Correspondence.fronted {τ τ' : Type} (F : Vec α × τ → Vec α × τ' → Prop) (E : σ → σ' → Prop) :
    Correspondence (τ × σ) (τ' × σ') α :=
  fun _ first second => F (first.1, first.2.1) (second.1, second.2.1) ∧ E first.2.2 second.2.2

namespace Run

variable {β : Type} {L : Correspondence σ σ' α} {S : Vec α → Vec α → Prop}

theorem stepper_lockstep {stepper : Steppable σ α} {stepper' : Steppable σ' α}
    (hlive : ∀ accepted first second, L accepted first second → S first.1 second.1)
    (h : stepper.Tandem L stepper') :
    (stepper.traced β).Tandem (L.traced β S) (stepper'.traced β) := by
  constructor
  intro accepted live live' time dt
  constructor
  rintro ⟨trace, env⟩ ⟨trace', env'⟩ ⟨hbefore, htraces⟩
  obtain ⟨hending, hafter⟩ := (h.step accepted live live' time dt).holds env env' hbefore
  have hvalue := hlive _ _ _ hafter
  exact ⟨hending, hafter,
    htraces.concat (.attempted rfl rfl rfl (hlive _ _ _ hbefore) hending hvalue)⟩

theorem observer_lockstep {observer : Observer σ α} {observer' : Observer σ' α}
    (hlive : ∀ accepted first second, L accepted first second → S first.1 second.1)
    (h : observer.Tandem L observer') :
    (observer.traced β).Tandem (L.traced β S) (observer'.traced β) := by
  constructor
  intro accepted live live' time
  constructor
  rintro ⟨trace, env⟩ ⟨trace', env'⟩ ⟨hbefore, htraces⟩
  have hafter := (h.observe accepted live live' time).holds env env' hbefore
  exact ⟨hafter, htraces.concat (.observed accepted time (hlive _ _ _ hbefore))⟩

theorem policy_lockstep {policy : Policy σ α β} {policy' : Policy σ' α β}
    (h : policy.Tandem L policy') : policy.traced.Tandem (L.traced β S) policy'.traced := by
  constructor
  intro accepted live live' time
  constructor
  rintro ⟨trace, env⟩ ⟨trace', env'⟩ ⟨hbefore, htraces⟩
  obtain ⟨hanswer, hafter⟩ := (h.ask accepted live live' time).holds env env' hbefore
  have hdeed :
      (Deed.asked (accepted + 1) time (policy (accepted + 1) time env).1 : Deed σ α β).Alike S
        (.asked (accepted + 1) time (policy' (accepted + 1) time env').1 : Deed σ' α β) :=
    hanswer ▸ .asked ..
  exact ⟨hanswer, hafter, htraces.concat hdeed⟩

theorem notes_lockstep [Journal α σ] [Journal α σ'] (h : NotesTandem L) :
    NotesTandem (L.traced β S) := by
  constructor
  intro accepted live live' event
  constructor
  rintro ⟨trace, env⟩ ⟨trace', env'⟩ ⟨hbefore, htraces⟩
  exact ⟨(h.note accepted live live' event).holds env env' hbefore, htraces⟩

/-! ## The four runs -/

/-- Two runs that do the same things on related states, as their traces say, and end
alike. -/
structure InLockstep {γ : Type} (S : Vec α → Vec α → Prop) (env : σ) (env' : σ')
    (traced : StateM (Trace σ α β × σ) (Run α γ)) (plain : StateM σ (Run α γ))
    (traced' : StateM (Trace σ' α β × σ') (Run α γ)) (plain' : StateM σ' (Run α γ)) : Prop where
  mirrors : ((traced ([], env)).1, (traced ([], env)).2.2) = plain env
  mirrors' : ((traced' ([], env')).1, (traced' ([], env')).2.2) = plain' env'
  traces : Trace.Alike S (traced ([], env)).2.1 (traced' ([], env')).2.1
  live : S (plain env).1.live (plain' env').1.live
  ending : (plain env).1.ending = (plain' env').1.ending

section Runs

variable [Scalar α] {stepper : Steppable σ α} {stepper' : Steppable σ' α} {observer : Observer σ α}
  {observer' : Observer σ' α} {live live' : Vec α} {env : σ} {env' : σ'}
  (hlive : ∀ accepted first second, L accepted first second → S first.1 second.1)

include hlive

omit [Scalar α] in
theorem inLockstep_of_tandem {γ : Type} {traced : StateM (Trace σ α β × σ) (Run α γ)}
    {plain : StateM σ (Run α γ)} {traced' : StateM (Trace σ' α β × σ') (Run α γ)}
    {plain' : StateM σ' (Run α γ)} (hmirrors : ActsAs traced plain)
    (hmirrors' : ActsAs traced' plain')
    (htandem : Parallel ((L.traced β S).Beside 0 live live') traced traced'
      (EndAlike (L.traced β S)))
    (hstart : L 0 (live, env) (live', env')) :
    InLockstep S env env' traced plain traced' plain' := by
  have hsame := hmirrors.eq ([], env)
  have hsame' := hmirrors'.eq ([], env')
  obtain ⟨hending, accepted, hafter, htraces⟩ :=
    htandem.holds ([], env) ([], env') ⟨hstart, .nil⟩
  refine ⟨hsame, hsame', htraces, ?_, ?_⟩
  · rw [← hsame, ← hsame']
    exact hlive _ _ _ hafter
  · rw [← hsame, ← hsame']
    exact hending

variable (hstepper : stepper.Tandem L stepper') (hobserver : observer.Tandem L observer')
  (hstart : L 0 (live, env) (live', env'))

include hstepper hobserver hstart

theorem steps_lockstep (start dt : α) (count : Nat) :
    InLockstep S env env'
      (steps (stepper.traced Unit) (observer.traced Unit) start dt count live)
      (steps stepper observer start dt count live)
      (steps (stepper'.traced Unit) (observer'.traced Unit) start dt count live')
      (steps stepper' observer' start dt count live') :=
  inLockstep_of_tandem hlive (steps_traced ..) (steps_traced ..)
    (steps_tandem (stepper_lockstep hlive hstepper) (observer_lockstep hlive hobserver) start dt
      count live live') hstart

theorem toTime_lockstep {policy : Policy σ α α} {policy' : Policy σ' α α}
    (hpolicy : policy.Tandem L policy') (fuel : Nat) (start final : α) :
    InLockstep S env env'
      (toTime fuel (stepper.traced α) policy.traced (observer.traced α) start final live)
      (toTime fuel stepper policy observer start final live)
      (toTime fuel (stepper'.traced α) policy'.traced (observer'.traced α) start final live')
      (toTime fuel stepper' policy' observer' start final live') :=
  inLockstep_of_tandem hlive (toTime_traced ..) (toTime_traced ..)
    (toTime_tandem (stepper_lockstep hlive hstepper) (policy_lockstep hpolicy)
      (observer_lockstep hlive hobserver) fuel start final live live') hstart

variable [Journal α σ] [Journal α σ'] (hnotes : NotesTandem L)
  {control : Policy σ α (StepControl α)} {control' : Policy σ' α (StepControl α)}
  (hcontrol : control.Tandem L control')

include hnotes hcontrol

theorem stepsRetrying_lockstep (fuel : Nat) (start : α) (count : Nat) :
    InLockstep S env env'
      (stepsRetrying fuel (stepper.traced _) control.traced (observer.traced _) start count live)
      (stepsRetrying fuel stepper control observer start count live)
      (stepsRetrying fuel (stepper'.traced _) control'.traced (observer'.traced _) start count
        live')
      (stepsRetrying fuel stepper' control' observer' start count live') :=
  inLockstep_of_tandem hlive (stepsRetrying_traced ..) (stepsRetrying_traced ..)
    (stepsRetrying_tandem (stepper_lockstep hlive hstepper) (policy_lockstep hcontrol)
      (observer_lockstep hlive hobserver) (notes_lockstep hnotes) fuel start count live live')
    hstart

theorem toTimeRetrying_lockstep (fuel : Nat) (start final : α) :
    InLockstep S env env'
      (toTimeRetrying fuel (stepper.traced _) control.traced (observer.traced _) start final live)
      (toTimeRetrying fuel stepper control observer start final live)
      (toTimeRetrying fuel (stepper'.traced _) control'.traced (observer'.traced _) start final
        live')
      (toTimeRetrying fuel stepper' control' observer' start final live') :=
  inLockstep_of_tandem hlive (toTimeRetrying_traced ..) (toTimeRetrying_traced ..)
    (toTimeRetrying_tandem (stepper_lockstep hlive hstepper) (policy_lockstep hcontrol)
      (observer_lockstep hlive hobserver) (notes_lockstep hnotes) fuel start final live live')
    hstart

end Runs

/-! ## Callbacks beside the stepper -/

/-- The policies give the same answers, and keep the environments related. -/
def Policy.Alike (E : σ → σ' → Prop) (policy : Policy σ α β) (policy' : Policy σ' α β) : Prop :=
  ∀ step time, Parallel E (policy step time) (policy' step time) fun answer answer' env env' =>
    answer = answer' ∧ E env env'

/-- The observers keep the environments related when they are shown related states. -/
def Observer.Alike (S : Vec α → Vec α → Prop) (E : σ → σ' → Prop) (observer : Observer σ α)
    (observer' : Observer σ' α) : Prop :=
  ∀ step time live live', S live live' →
    Parallel E (observer step time live) (observer' step time live') fun _ _ => E

/-- Taking note of an event keeps the environments related. -/
def NotesAlike (α : Type) {σ σ' : Type} [Journal α σ] [Journal α σ'] (E : σ → σ' → Prop) : Prop :=
  ∀ (event : Event α) (env : σ) (env' : σ'), E env env' →
    E (Journal.record event env) (Journal.record event env')

section Fronted

variable {τ τ' : Type} {F : Vec α × τ → Vec α × τ' → Prop} {E : σ → σ' → Prop}

theorem policy_fronted {policy : Policy σ α β} {policy' : Policy σ' α β}
    (h : policy.Alike E policy') :
    (policy.beside τ).Tandem (.fronted F E) (policy'.beside τ') := by
  constructor
  intro accepted live live' time
  constructor
  rintro ⟨front, env⟩ ⟨front', env'⟩ ⟨hfront, henv⟩
  obtain ⟨hanswer, hafter⟩ := (h (accepted + 1) time).holds env env' henv
  exact ⟨hanswer, hfront, hafter⟩

theorem observer_fronted (hfront : ∀ first second, F first second → S first.1 second.1)
    {observer : Observer σ α} {observer' : Observer σ' α} (h : observer.Alike S E observer') :
    (observer.beside τ).Tandem (.fronted F E) (observer'.beside τ') := by
  constructor
  intro accepted live live' time
  constructor
  rintro ⟨front, env⟩ ⟨front', env'⟩ ⟨hbefore, henv⟩
  exact ⟨hbefore, (h accepted time live live' (hfront _ _ hbefore)).holds env env' henv⟩

variable [Journal α σ] [Journal α σ']

theorem notes_fronted (h : NotesAlike α E) :
    NotesTandem (.fronted F E : Correspondence (τ × σ) (τ' × σ') α) := by
  constructor
  intro accepted live live' event
  constructor
  rintro ⟨front, env⟩ ⟨front', env'⟩ ⟨hfront, henv⟩
  exact ⟨hfront, h event env env' henv⟩

variable [Scalar α]

/-- Whichever of the four runs the two steppers are driven by, they go in lockstep, with
callbacks beside them that are alike. -/
structure RunsInLockstep (S : Vec α → Vec α → Prop) (E : σ → σ' → Prop)
    (stepper : Steppable (τ × σ) α) (stepper' : Steppable (τ' × σ') α) (live live' : Vec α)
    (env : τ × σ) (env' : τ' × σ') : Prop where
  steps {observer : Observer σ α} {observer' : Observer σ' α}
    (hobserver : observer.Alike S E observer') (start dt : α) (count : Nat) :
    let observer := observer.beside τ
    let observer' := observer'.beside τ'
    InLockstep S env env'
      (steps (stepper.traced Unit) (observer.traced Unit) start dt count live)
      (steps stepper observer start dt count live)
      (steps (stepper'.traced Unit) (observer'.traced Unit) start dt count live')
      (steps stepper' observer' start dt count live')
  toTime {policy : Policy σ α α} {policy' : Policy σ' α α} {observer : Observer σ α}
    {observer' : Observer σ' α} (hpolicy : policy.Alike E policy')
    (hobserver : observer.Alike S E observer') (fuel : Nat) (start final : α) :
    let policy := policy.beside τ
    let policy' := policy'.beside τ'
    let observer := observer.beside τ
    let observer' := observer'.beside τ'
    InLockstep S env env'
      (toTime fuel (stepper.traced α) policy.traced (observer.traced α) start final live)
      (toTime fuel stepper policy observer start final live)
      (toTime fuel (stepper'.traced α) policy'.traced (observer'.traced α) start final live')
      (toTime fuel stepper' policy' observer' start final live')
  stepsRetrying {control : Policy σ α (StepControl α)} {control' : Policy σ' α (StepControl α)}
    {observer : Observer σ α} {observer' : Observer σ' α} (hcontrol : control.Alike E control')
    (hobserver : observer.Alike S E observer') (fuel : Nat) (start : α) (count : Nat) :
    let control := control.beside τ
    let control' := control'.beside τ'
    let observer := observer.beside τ
    let observer' := observer'.beside τ'
    InLockstep S env env'
      (stepsRetrying fuel (stepper.traced _) control.traced (observer.traced _) start count live)
      (stepsRetrying fuel stepper control observer start count live)
      (stepsRetrying fuel (stepper'.traced _) control'.traced (observer'.traced _) start count
        live')
      (stepsRetrying fuel stepper' control' observer' start count live')
  toTimeRetrying {control : Policy σ α (StepControl α)} {control' : Policy σ' α (StepControl α)}
    {observer : Observer σ α} {observer' : Observer σ' α} (hcontrol : control.Alike E control')
    (hobserver : observer.Alike S E observer') (fuel : Nat) (start final : α) :
    let control := control.beside τ
    let control' := control'.beside τ'
    let observer := observer.beside τ
    let observer' := observer'.beside τ'
    InLockstep S env env'
      (toTimeRetrying fuel (stepper.traced _) control.traced (observer.traced _) start final live)
      (toTimeRetrying fuel stepper control observer start final live)
      (toTimeRetrying fuel (stepper'.traced _) control'.traced (observer'.traced _) start final
        live')
      (toTimeRetrying fuel stepper' control' observer' start final live')

theorem runsInLockstep_of_tandem (hfront : ∀ first second, F first second → S first.1 second.1)
    (hnotes : NotesAlike α E) {stepper : Steppable (τ × σ) α} {stepper' : Steppable (τ' × σ') α}
    (hstepper : stepper.Tandem (.fronted F E) stepper') {live live' : Vec α} {env : τ × σ}
    {env' : τ' × σ'} (hstart : F (live, env.1) (live', env'.1)) (henv : E env.2 env'.2) :
    RunsInLockstep S E stepper stepper' live live' env env' := by
  have hlive : ∀ accepted first second,
      Correspondence.fronted F E accepted first second → S first.1 second.1 :=
    fun _ _ _ h => hfront _ _ h.1
  have hbegin : Correspondence.fronted F E 0 (live, env) (live', env') := ⟨hstart, henv⟩
  exact {
    steps hobserver := steps_lockstep hlive hstepper (observer_fronted hfront hobserver) hbegin
    toTime hpolicy hobserver := toTime_lockstep hlive hstepper (observer_fronted hfront hobserver)
      hbegin (policy_fronted hpolicy)
    stepsRetrying hcontrol hobserver := stepsRetrying_lockstep hlive hstepper
      (observer_fronted hfront hobserver) hbegin (notes_fronted hnotes) (policy_fronted hcontrol)
    toTimeRetrying hcontrol hobserver := toTimeRetrying_lockstep hlive hstepper
      (observer_fronted hfront hobserver) hbegin (notes_fronted hnotes) (policy_fronted hcontrol) }

end Fronted

end Run

end TimeStepping
