import TimeStepping.Event

/-!
# Assertions about actions

What an action makes of its environment is stated by a precondition on the
environment and a postcondition on result and environment, and what two actions
have in common by the same on two environments.  Loops are treated by induction
with one rule for each operation they are built from.  An action may also be
logged, to a list in front of its environment that it does not read.
-/

namespace TimeStepping

variable {σ σ' τ α β β' γ γ' ε : Type}

theorem bind_apply (action : StateM σ β) (next : β → StateM σ γ) (env : σ) :
    (action >>= next) env = next (action env).1 (action env).2 :=
  rfl

/-- Started in an environment with `P`, the action leaves a result and an
environment with `Q`. -/
structure Ensures (P : σ → Prop) (action : StateM σ β) (Q : β → σ → Prop) : Prop where
  holds (env : σ) (h : P env) : Q (action env).1 (action env).2

namespace Ensures

variable {P : σ → Prop} {Q : β → σ → Prop} {R : γ → σ → Prop}

theorem pure {value : β} (h : ∀ env, P env → Q value env) :
    Ensures P (pure value : StateM σ β) Q :=
  ⟨h⟩

theorem bind {action : StateM σ β} {next : β → StateM σ γ} (haction : Ensures P action Q)
    (hnext : ∀ value, Ensures (Q value) (next value) R) : Ensures P (action >>= next) R :=
  ⟨fun env henv => (hnext _).holds _ (haction.holds env henv)⟩

theorem note [Journal α σ] {event : Event α} {Q : Unit → σ → Prop}
    (h : ∀ env, P env → Q () (Journal.record event env)) :
    Ensures P (note event : StateM σ Unit) Q :=
  ⟨h⟩

theorem weaken {P' : σ → Prop} {action : StateM σ β} (haction : Ensures P action Q)
    (hpre : ∀ env, P' env → P env) : Ensures P' action Q :=
  ⟨fun env henv => haction.holds env (hpre env henv)⟩

theorem any {action : StateM σ β} : Ensures P action fun _ _ => True :=
  ⟨fun _ _ => trivial⟩

/-- A precondition that is not about the environment. -/
theorem given {p : Prop} {action : StateM σ β} (h : p → Ensures (fun _ => True) action Q) :
    Ensures (fun _ => p) action Q :=
  ⟨fun env hp => (h hp).holds env trivial⟩

end Ensures

/-- Started in environments related by `P`, the two actions leave results and
environments related by `Q`. -/
structure Parallel (P : σ → σ' → Prop) (first : StateM σ β) (second : StateM σ' β')
    (Q : β → β' → σ → σ' → Prop) : Prop where
  holds (env : σ) (env' : σ') (h : P env env') :
    Q (first env).1 (second env').1 (first env).2 (second env').2

namespace Parallel

variable {P : σ → σ' → Prop} {Q : β → β' → σ → σ' → Prop} {R : γ → γ' → σ → σ' → Prop}
  {first : StateM σ β} {second : StateM σ' β'}

theorem pure {value : β} {value' : β'} (h : ∀ env env', P env env' → Q value value' env env') :
    Parallel P (pure value : StateM σ β) (pure value' : StateM σ' β') Q :=
  ⟨h⟩

theorem bind {first : StateM σ β} {second : StateM σ' β'} {next : β → StateM σ γ}
    {next' : β' → StateM σ' γ'} (hfirst : Parallel P first second Q)
    (hnext : ∀ value value', Parallel (Q value value') (next value) (next' value') R) :
    Parallel P (first >>= next) (second >>= next') R :=
  ⟨fun env env' henv => (hnext _ _).holds _ _ (hfirst.holds env env' henv)⟩

theorem ite {c : Prop} [Decidable c] {first' : StateM σ β} {second' : StateM σ' β'}
    (h : Parallel P first second Q) (h' : Parallel P first' second' Q) :
    Parallel P (if c then first else first') (if c then second else second') Q := by
  split
  · exact h
  · exact h'

/-- A part of the precondition that is not about the environments. -/
theorem given {p : Prop} (h : p → Parallel P first second Q) :
    Parallel (fun env env' => p ∧ P env env') first second Q :=
  ⟨fun env env' henv => (h henv.1).holds env env' henv.2⟩

/-- Only the first action notes an event. -/
theorem note_left [Journal α σ] {P' : σ → σ' → Prop} {event : Event α}
    {next : Unit → StateM σ γ} {second : StateM σ' γ'}
    (hpre : ∀ env env', P env env' → P' (Journal.record event env) env')
    (hnext : Parallel P' (next ()) second R) :
    Parallel P (TimeStepping.note event >>= next) second R :=
  ⟨fun env env' henv => hnext.holds _ _ (hpre env env' henv)⟩

end Parallel

/-! ## Logging -/

/-- Act on the environment behind a log, and add an entry about it. -/
def logging (entry : σ → β → σ → ε) (action : StateM σ β) : StateM (List ε × σ) β :=
  fun env =>
    let result := action env.2
    (result.1, env.1 ++ [entry env.2 result.1 result.2], result.2)

/-- Act on the environment behind a front component, which stays as it is. -/
def besides (τ : Type) (action : StateM σ β) : StateM (τ × σ) β :=
  fun env => ((action env.2).1, env.1, (action env.2).2)

theorem bind_besides {action : StateM (τ × σ) β} {plain : StateM σ β}
    {next : β → StateM (τ × σ) γ} {next' : β → StateM σ γ} (h : action = besides τ plain)
    (hnext : ∀ value, next value = besides τ (next' value)) :
    action >>= next = besides τ (plain >>= next') := by
  funext env
  simp only [bind_apply, h, hnext]
  rfl

theorem ite_besides {c : Prop} [Decidable c] {action action' : StateM (τ × σ) β}
    {plain plain' : StateM σ β} (h : action = besides τ plain) (h' : action' = besides τ plain') :
    (if c then action else action') = besides τ (if c then plain else plain') := by
  split
  · exact h
  · exact h'

/-- An action that does what `plain` does, apart from what it keeps in front. -/
structure ActsAs (action : StateM (τ × σ) β) (plain : StateM σ β) : Prop where
  eq (env : τ × σ) : ((action env).1, (action env).2.2) = plain env.2

namespace ActsAs

theorem pure (value : β) : ActsAs (pure value : StateM (τ × σ) β) (pure value) :=
  ⟨fun _ => rfl⟩

theorem logging (entry : σ → β → σ → ε) (action : StateM σ β) :
    ActsAs (logging entry action) action :=
  ⟨fun _ => rfl⟩

theorem besides (action : StateM σ β) : ActsAs (besides τ action) action :=
  ⟨fun _ => rfl⟩

theorem note [Journal α σ] (event : Event α) :
    ActsAs (note event : StateM (τ × σ) Unit) (note event) :=
  ⟨fun _ => rfl⟩

theorem bind {action : StateM (τ × σ) β} {plain : StateM σ β} {next : β → StateM (τ × σ) γ}
    {next' : β → StateM σ γ} (haction : ActsAs action plain)
    (hnext : ∀ value, ActsAs (next value) (next' value)) :
    ActsAs (action >>= next) (plain >>= next') := by
  constructor
  intro env
  have hfirst := haction.eq env
  have hsecond := (hnext (action env).1).eq (action env).2
  change ((next (action env).1 (action env).2).1, (next (action env).1 (action env).2).2.2) =
    next' (plain env.2).1 (plain env.2).2
  rw [hsecond, ← hfirst]

theorem ite {c : Prop} [Decidable c] {action action' : StateM (τ × σ) β}
    {plain plain' : StateM σ β} (h : ActsAs action plain) (h' : ActsAs action' plain') :
    ActsAs (if c then action else action') (if c then plain else plain') := by
  split
  · exact h
  · exact h'

theorem noteAll [Journal α σ] (events : List (Event α)) :
    ActsAs (noteAll events : StateM (τ × σ) Unit) (noteAll events) := by
  induction events with
  | nil => exact ⟨fun _ => rfl⟩
  | cons event events ih => exact (note event).bind fun _ => ih

end ActsAs

/-- The action adds entries to the log, and they and its result satisfy `Q`. -/
structure Logs (action : StateM (List ε × σ) β) (Q : List ε → β → Prop) : Prop where
  holds (env : List ε × σ) :
    ∃ entries, (action env).2.1 = env.1 ++ entries ∧ Q entries (action env).1

namespace Logs

variable {action : StateM (List ε × σ) β} {Q : List ε → β → Prop} {R : List ε → γ → Prop}

theorem pure {value : β} (h : Q [] value) : Logs (pure value : StateM (List ε × σ) β) Q :=
  ⟨fun env => ⟨[], (List.append_nil env.1).symm, h⟩⟩

theorem besides {action : StateM σ β} (h : ∀ value, Q [] value) :
    Logs (besides (List ε) action) Q :=
  ⟨fun env => ⟨[], (List.append_nil env.1).symm, h _⟩⟩

theorem bind {next : β → StateM (List ε × σ) γ} (haction : Logs action Q)
    (hnext : ∀ value entries, Q entries value →
      Logs (next value) fun more result => R (entries ++ more) result) :
    Logs (action >>= next) R := by
  constructor
  intro env
  obtain ⟨entries, hentries, hvalue⟩ := haction.holds env
  obtain ⟨more, hmore, hresult⟩ := (hnext _ entries hvalue).holds (action env).2
  exact ⟨entries ++ more, by rw [← List.append_assoc, ← hentries]; exact hmore, hresult⟩

theorem ite {c : Prop} [Decidable c] {action' : StateM (List ε × σ) β} (h : Logs action Q)
    (h' : Logs action' Q) : Logs (if c then action else action') Q := by
  split
  · exact h
  · exact h'

theorem weaken {Q' : List ε → β → Prop} (haction : Logs action Q)
    (h : ∀ entries value, Q entries value → Q' entries value) : Logs action Q' := by
  constructor
  intro env
  obtain ⟨entries, hentries, hvalue⟩ := haction.holds env
  exact ⟨entries, hentries, h _ _ hvalue⟩

/-- An action that does what `plain` does, started with an empty log, leaves a log of what
`plain` did. -/
theorem of_actsAs {plain : StateM σ β} (haction : Logs action Q) (hplain : ActsAs action plain)
    (env : σ) : Q (action ([], env)).2.1 (plain env).1 := by
  obtain ⟨entries, hentries, hvalue⟩ := haction.holds ([], env)
  have hsame : (action ([], env)).1 = (plain env).1 := congrArg Prod.fst (hplain.eq ([], env))
  rw [List.nil_append] at hentries
  rwa [hentries, ← hsame]

/-- An action that leaves the log alone may come before another. -/
theorem silently {action : StateM (List ε × σ) β} {next : β → StateM (List ε × σ) γ}
    (haction : Logs action fun entries _ => entries = []) (hnext : ∀ value, Logs (next value) R) :
    Logs (action >>= next) R := by
  refine haction.bind ?_
  rintro value _ rfl
  exact hnext value

theorem note [Journal α σ] (event : Event α) :
    Logs (note event : StateM (List ε × σ) Unit) fun entries _ => entries = [] :=
  ⟨fun env => ⟨[], (List.append_nil env.1).symm, rfl⟩⟩

theorem noteAll [Journal α σ] (events : List (Event α)) :
    Logs (noteAll events : StateM (List ε × σ) Unit) fun entries _ => entries = [] := by
  induction events with
  | nil => exact ⟨fun env => ⟨[], (List.append_nil env.1).symm, rfl⟩⟩
  | cons event events ih => exact (note event).silently fun _ => ih

end Logs

end TimeStepping
