import TimeStepping.Json.Record
import TimeStepping.Proofs.Json.RoundTrip

/-!
# Reading the fields of a record

The fields a record was written with come back in order, `fields?_ofFields`, and each kind of
field reads the value that was put into it.
-/

namespace TimeStepping

namespace Json

/-! ## Slots -/

theorem putField_append (value : Json) (before after : List (Option Json)) :
    putField value before.length (before ++ none :: after) =
      some (before ++ some value :: after) := by
  induction before with
  | nil => rfl
  | cons slot before ih =>
      rw [List.length_cons, List.cons_append, putField, ih]
      rfl

theorem idxOf?_append_cons {before after : List String} {name : String} (h : name ∉ before) :
    (before ++ name :: after).idxOf? name = some before.length := by
  apply List.idxOf?_eq_some_iff.mpr
  refine ⟨by simp, by simp, ?_⟩
  intro j hj hname
  rw [List.getElem_append_left hj] at hname
  exact h (hname ▸ List.getElem_mem hj)

theorem putMembers_fields {names before : List String} {fields : List (String × Json)}
    (hnames : names = before ++ fields.map Prod.fst) (hnodup : names.Nodup)
    (hplain : ∀ name ∈ names, Spelling.Plain name.toList) {filled : List (Option Json)}
    (hfilled : filled.length = before.length) :
    putMembers names (fields.map fun field => (field.1.toList, field.2))
        (filled ++ List.replicate fields.length none) =
      some (filled ++ fields.map fun field => some field.2) := by
  induction fields generalizing before filled with
  | nil => rfl
  | cons field fields ih =>
      obtain ⟨name, value⟩ := field
      have hname : name ∈ names := by simp [hnames]
      have hfresh : name ∉ before := by
        intro hmem
        rw [hnames, List.map_cons] at hnodup
        exact (List.nodup_append.mp hnodup).2.2 name hmem name List.mem_cons_self rfl
      have hposition : names.idxOf? name = some filled.length := by
        rw [hnames, hfilled]
        exact idxOf?_append_cons hfresh
      have hput := putField_append value filled (List.replicate fields.length none)
      have hmore : putMembers names (fields.map fun field => (field.1.toList, field.2))
          (filled ++ [some value] ++ List.replicate fields.length none) =
            some (filled ++ [some value] ++ fields.map fun field => some field.2) :=
        ih (show names = before ++ [name] ++ fields.map Prod.fst by simp [hnames])
          (by simp [hfilled])
      rw [List.map_cons, putMembers]
      simp only [(hplain name hname).decode_eq, Option.bind_eq_bind, Option.bind_some,
        String.ofList_toList, hposition, List.length_cons, List.replicate_succ, hput]
      simpa using hmore

/-- The members a record is written with are its fields. -/
theorem fields?_ofFields {names : List String} {fields : List (String × Json)}
    (hnames : names = fields.map Prod.fst) (hnodup : names.Nodup)
    (hplain : ∀ name ∈ names, Spelling.Plain name.toList) :
    fields? names (ofFields fields) = some (fields.map fun field => some field.2) := by
  have hput : putMembers names (fields.map fun field => (field.1.toList, field.2))
      ([] ++ List.replicate fields.length none) =
        some ([] ++ fields.map fun field => some field.2) :=
    putMembers_fields (show names = [] ++ fields.map Prod.fst from hnames) hnodup hplain rfl
  have hlength : names.length = fields.length := by rw [hnames, List.length_map]
  change putMembers names _ (List.replicate names.length none) = _
  rw [hlength]
  exact hput

theorem ofFields_spellable {names : List String} {fields : List (String × Json)}
    (hnames : names = fields.map Prod.fst)
    (hplain : ∀ name ∈ names, Spelling.Plain name.toList)
    (hvalues : ∀ field ∈ fields, field.2.Spellable) : (ofFields fields).Spellable := by
  apply Spellable.object
  · intro m hm
    obtain ⟨field, hfield, rfl⟩ := List.mem_map.mp hm
    have hname : field.1 ∈ names := by
      rw [hnames]
      exact List.mem_map_of_mem hfield
    exact (hplain field.1 hname).closed
  · intro m hm
    obtain ⟨field, hfield, rfl⟩ := List.mem_map.mp hm
    exact hvalues field hfield

/-! ## Values of fields -/

theorem count?_ofNat {n : Nat} (h : n ≤ Number.wordLimit) :
    count? (number (Number.ofNat n)) = some n :=
  Number.toNat?_ofNat h

section Scalars

variable {α : Type} [JsonNumber α]

theorem scalar?_ofScalar {x : α} {n : Literal} (hwrite : JsonNumber.write x = some n)
    (hread : JsonNumber.read n = some x) : scalar? (ofScalar x) = some x := by
  unfold ofScalar
  rw [hwrite]
  exact hread

theorem scalar?_ofScalar_of_none {x : α} (hwrite : JsonNumber.write x = none) :
    scalar? (ofScalar x) = (none : Option α) := by
  unfold ofScalar
  rw [hwrite]
  rfl

theorem ofScalar_spellable {x : α}
    (h : ∀ n, JsonNumber.write x = some n → n.Grammatical) : (ofScalar x).Spellable := by
  unfold ofScalar
  split
  · rename_i n hn
    exact .number (h n hn)
  · exact .null

end Scalars

end Json

end TimeStepping
