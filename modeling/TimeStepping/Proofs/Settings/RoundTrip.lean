import TimeStepping.Proofs.Doubles
import TimeStepping.Proofs.Json.Records
import TimeStepping.Proofs.Settings.Validation
import TimeStepping.Settings.Json

/-!
# Settings as text and back

Settings are read back from what they are written as, provided that each of their numbers is.
A number that is not finite is written as no number and stops the reader.  The checks of
settings exclude such a number only where the mode of the settings uses it, so accepted settings
are read back as they were or not at all, `Settings.read_write`.
-/

namespace TimeStepping

/-! ## Schemes -/

namespace Scheme

theorem plain_name (scheme : Scheme) : Json.Spelling.Plain scheme.name.toList := by
  cases scheme <;> decide

theorem ofName?_name (scheme : Scheme) : ofName? scheme.name = some scheme := by
  cases scheme <;> decide

theorem ofJson?_toJson (scheme : Scheme) : ofJson? scheme.toJson = some scheme := by
  change (Json.Spelling.decode scheme.name.toList).bind (fun name => ofName? (String.ofList name)) =
    some scheme
  rw [scheme.plain_name.decode_eq, Option.bind_some, String.ofList_toList, ofName?_name]

theorem toJson_spellable (scheme : Scheme) : scheme.toJson.Spellable :=
  .string scheme.plain_name.closed

end Scheme

/-! ## Numbers -/

section Numbers

variable {α : Type} [JsonNumber α]

/-- What is written for the number is read as it. -/
def JsonNumber.ReadBack (x : α) : Prop :=
  (write x).bind read = some x

instance [DecidableEq α] (x : α) : Decidable (JsonNumber.ReadBack x) :=
  inferInstanceAs (Decidable ((JsonNumber.write x).bind JsonNumber.read = some x))

theorem JsonNumber.ReadBack.scalar? {x : α} (h : ReadBack x) :
    Json.scalar? (Json.ofScalar x) = some x := by
  obtain ⟨n, hwrite, hread⟩ := Option.bind_eq_some_iff.mp h
  exact Json.scalar?_ofScalar hwrite hread

/-- All numbers among the settings. -/
def Settings.numbers (settings : Settings α) : List α :=
  [settings.startTime, settings.duration, settings.dt, settings.minimumDt, settings.reduction] ++
    settings.newton.tolerances

end Numbers

/-! ## Records -/

section Records

variable {α : Type} [JsonNumber α]

open JsonNumber (ReadBack)
open Json (scalar? ofScalar)

namespace Newton.Settings

theorem fields?_toJson (settings : Newton.Settings α) :
    Json.fields? fieldNames settings.toJson = some [
      some (.number (Json.Number.ofNat settings.maxIterations)),
      some (ofScalar settings.residualAbs), some (ofScalar settings.residualRel),
      some (ofScalar settings.correctionAbs), some (ofScalar settings.correctionRel)] :=
  Json.fields?_ofFields rfl (by decide) (by decide)

theorem ofJson?_toJson {settings : Newton.Settings α} (default : Newton.Settings α)
    (hcount : settings.maxIterations ≤ Json.Number.wordLimit)
    (hback : ∀ x ∈ settings.tolerances, ReadBack x) :
    ofJson? default settings.toJson = some settings := by
  unfold tolerances at hback
  simp only [List.forall_mem_cons] at hback
  obtain ⟨hresidualAbs, hresidualRel, hcorrectionAbs, hcorrectionRel, -⟩ := hback
  unfold ofJson?
  rw [fields?_toJson]
  simp only [Option.bind_eq_bind, Option.bind_some, Json.fieldOr, Json.count?_ofNat hcount,
    hresidualAbs.scalar?, hresidualRel.scalar?, hcorrectionAbs.scalar?, hcorrectionRel.scalar?]
  rfl

/-- No settings are read where one of their tolerances is not. -/
theorem isSome_of_ofJson? {default settings found : Newton.Settings α}
    (h : ofJson? default settings.toJson = some found) :
    ∀ x ∈ settings.tolerances, (scalar? (ofScalar x) : Option α).isSome := by
  unfold ofJson? at h
  rw [fields?_toJson] at h
  simp only [Option.bind_eq_bind, Option.bind_some, Json.fieldOr, Option.bind_eq_some_iff] at h
  obtain ⟨-, -, residualAbs, hresidualAbs, residualRel, hresidualRel, correctionAbs,
    hcorrectionAbs, correctionRel, hcorrectionRel, -⟩ := h
  unfold tolerances
  simp only [List.forall_mem_cons]
  rw [hresidualAbs, hresidualRel, hcorrectionAbs, hcorrectionRel]
  simp

theorem toJson_spellable {settings : Newton.Settings α}
    (hspell : ∀ x : α, ∀ n, JsonNumber.write x = some n → n.Grammatical) :
    settings.toJson.Spellable := by
  apply Json.ofFields_spellable (show fieldNames = _ from rfl) (by decide)
  simp only [List.forall_mem_cons]
  exact ⟨.number (Json.Number.ofNat_grammatical _), Json.ofScalar_spellable (hspell _),
    Json.ofScalar_spellable (hspell _), Json.ofScalar_spellable (hspell _),
    Json.ofScalar_spellable (hspell _), by simp⟩

end Newton.Settings

namespace Settings

theorem fields?_toJson (settings : Settings α) :
    Json.fields? fieldNames settings.toJson = some [some settings.scheme.toJson,
      some (ofScalar settings.startTime), some (ofScalar settings.duration),
      some (ofScalar settings.dt), some (.bool settings.recovery),
      some (ofScalar settings.minimumDt), some (ofScalar settings.reduction),
      some settings.newton.toJson] :=
  Json.fields?_ofFields rfl (by decide) (by decide)

theorem ofJson?_toJson {settings : Settings α} (default : Settings α)
    (hcount : settings.newton.maxIterations ≤ Json.Number.wordLimit)
    (hback : ∀ x ∈ settings.numbers, ReadBack x) :
    ofJson? default settings.toJson = some settings := by
  unfold numbers at hback
  simp only [List.forall_mem_append, List.forall_mem_cons] at hback
  obtain ⟨⟨hstart, hduration, hdt, hminimum, hreduction, -⟩, hnewton⟩ := hback
  unfold ofJson?
  rw [fields?_toJson]
  simp only [Option.bind_eq_bind, Option.bind_some, Json.fieldOr, Scheme.ofJson?_toJson,
    hstart.scalar?, hduration.scalar?, hdt.scalar?, Json.bool?, hminimum.scalar?,
    hreduction.scalar?, Newton.Settings.ofJson?_toJson _ hcount hnewton]
  rfl

/-- No settings are read where one of their numbers is not. -/
theorem isSome_of_ofJson? {default settings found : Settings α}
    (h : ofJson? default settings.toJson = some found) :
    ∀ x ∈ settings.numbers, (scalar? (ofScalar x) : Option α).isSome := by
  unfold ofJson? at h
  rw [fields?_toJson] at h
  simp only [Option.bind_eq_bind, Option.bind_some, Json.fieldOr, Option.bind_eq_some_iff] at h
  obtain ⟨-, -, start, hstart, duration, hduration, dt, hdt, -, -, minimum, hminimum, reduction,
    hreduction, newton, hnewton, -⟩ := h
  unfold numbers
  simp only [List.forall_mem_append, List.forall_mem_cons]
  rw [hstart, hduration, hdt, hminimum, hreduction]
  exact ⟨by simp, Newton.Settings.isSome_of_ofJson? hnewton⟩

theorem toJson_spellable {settings : Settings α}
    (hspell : ∀ x : α, ∀ n, JsonNumber.write x = some n → n.Grammatical) :
    settings.toJson.Spellable := by
  have hscalar : ∀ x : α, (ofScalar x).Spellable := fun x => Json.ofScalar_spellable (hspell x)
  apply Json.ofFields_spellable (show fieldNames = _ from rfl) (by decide)
  simp only [List.forall_mem_cons]
  exact ⟨settings.scheme.toJson_spellable, hscalar _, hscalar _, hscalar _, .bool _, hscalar _,
    hscalar _, Newton.Settings.toJson_spellable hspell, by simp⟩

end Settings

end Records

/-! ## The round trip -/

namespace Settings

variable {settings : Settings Float}

theorem read?_write (settings : Settings Float) :
    Json.read? settings.write = some settings.toJson :=
  Json.read?_pretty (toJson_spellable fun _ _ => write_grammatical)

/-- Accepted settings whose numbers are read back are read back whole. -/
theorem read_write_of_numbers (hvalid : settings.validate = .ok ())
    (hcount : settings.newton.maxIterations ≤ Json.Number.wordLimit)
    (hback : ∀ x ∈ settings.numbers, JsonNumber.ReadBack x) :
    read settings.write = .ok settings := by
  unfold read
  rw [read?_write, Option.bind_some, ofJson?_toJson _ hcount hback]
  simp only [hvalid]

/-- A number that is not finite makes the settings unreadable. -/
theorem read_write_of_not_finite {x : Float} (hmem : x ∈ settings.numbers)
    (hx : x.isFinite = false) :
    (read settings.write : Except (Failure Float) (Settings Float)) =
      .error (.configuration .unreadableSettings) := by
  have hnone : ofJson? (standard : Settings Float) settings.toJson = none := by
    by_contra hsome
    obtain ⟨found, hfound⟩ := Option.ne_none_iff_exists'.mp hsome
    have hscalar := isSome_of_ofJson? hfound x hmem
    rw [Json.scalar?_ofScalar_of_none (write_of_not_finite hx)] at hscalar
    cases hscalar
  unfold read
  rw [read?_write, Option.bind_some, hnone]

theorem Accepted.newton_finite (h : settings.Accepted) :
    ∀ x ∈ settings.newton.tolerances, x.isFinite = true :=
  fun x hx => ((Newton.Settings.validate_eq_ok_iff.1 h.newton).2 x hx).1

/-- With recovery, the control is that of the settings, and all of it is checked. -/
theorem Accepted.control_finite (h : settings.Accepted) (hrecovery : settings.recovery = true) :
    settings.minimumDt.isFinite = true ∧ settings.reduction.isFinite = true := by
  have hcontrol := StepControl.validate_accepted.1 h.control
  have hretry : settings.control =
      ⟨settings.dt, settings.minimumDt, settings.reduction⟩ := if_pos hrecovery
  rw [hretry] at hcontrol
  exact ⟨isFinite_of_pos_of_le hcontrol.minimum_pos hcontrol.minimum_le hcontrol.dt_finite,
    hcontrol.reduction_finite⟩

theorem Accepted.numbers_finite (h : settings.Accepted)
    (hstart : settings.startTime.isFinite = true) (hminimum : settings.minimumDt.isFinite = true)
    (hreduction : settings.reduction.isFinite = true) :
    ∀ x ∈ settings.numbers, x.isFinite = true := by
  unfold numbers
  simp only [List.forall_mem_append, List.forall_mem_cons]
  exact ⟨⟨hstart, h.duration_finite, h.dt_accepted.1, hminimum, hreduction, by simp⟩,
    h.newton_finite⟩

/-- Settings with a finite start that pass their checks are read back as they were if the numbers
of a retry, which are checked only with recovery, are finite, and not at all if they are not. -/
theorem read_write (settings : Settings Float) (hvalid : settings.validate = .ok ())
    (hstart : settings.startTime.isFinite = true)
    (hcount : settings.newton.maxIterations ≤ Json.Number.wordLimit)
    (hback : ∀ x ∈ settings.numbers, x.isFinite = true → JsonNumber.ReadBack x) :
    (settings.recovery = true →
        settings.minimumDt.isFinite = true ∧ settings.reduction.isFinite = true) ∧
      read settings.write =
        if settings.minimumDt.isFinite = true ∧ settings.reduction.isFinite = true then
          .ok settings
        else .error (.configuration .unreadableSettings) := by
  have haccepted := validate_accepted.1 hvalid
  refine ⟨haccepted.control_finite, ?_⟩
  by_cases hretry : settings.minimumDt.isFinite = true ∧ settings.reduction.isFinite = true
  · rw [if_pos hretry]
    have hfinite := haccepted.numbers_finite hstart hretry.1 hretry.2
    exact read_write_of_numbers hvalid hcount fun x hx => hback x hx (hfinite x hx)
  · rw [if_neg hretry]
    rw [not_and_or, Bool.not_eq_true, Bool.not_eq_true] at hretry
    rcases hretry with hminimum | hreduction
    · exact read_write_of_not_finite (by simp [numbers]) hminimum
    · exact read_write_of_not_finite (by simp [numbers]) hreduction

/-- The standard settings with a scheme of higher order and with recovery. -/
def recovering : Settings Float :=
  { standard with scheme := .ssprk3, recovery := true }

theorem read_write_recovering :
    recovering.validate = .ok () ∧ read recovering.write = .ok recovering := by
  have hvalid : recovering.validate = .ok () := rfl
  have h := read_write recovering hvalid (by decide +kernel) (by decide +kernel)
    (by decide +kernel)
  rw [if_pos (h.1 rfl)] at h
  exact ⟨hvalid, h.2⟩

/-- Without recovery the least time step is not checked, and settings in which it is infinite are
accepted but not read back. -/
theorem exists_accepted_unreadable :
    ¬∀ settings : Settings Float, settings.validate = .ok () →
      settings.newton.maxIterations ≤ Json.Number.wordLimit →
      (∀ x ∈ settings.numbers, x.isFinite = true → JsonNumber.ReadBack x) →
      read settings.write = .ok settings := by
  intro h
  have hread := h { standard with minimumDt := 1 / 0 } rfl (by decide +kernel) (by decide +kernel)
  have hmem :
      (1 / 0 : Float) ∈ ({ standard with minimumDt := 1 / 0 } : Settings Float).numbers := by
    simp [numbers]
  rw [read_write_of_not_finite hmem (by decide +kernel)] at hread
  cases hread

end Settings

end TimeStepping
