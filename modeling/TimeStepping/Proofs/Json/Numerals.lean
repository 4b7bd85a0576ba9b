import TimeStepping.Json.Printer
import TimeStepping.Json.Reader
import TimeStepping.Proofs.Decimal
import TimeStepping.Proofs.Doubles
import TimeStepping.Json.Number

/-!
# Numbers as they are spelled

A spelling that follows the grammar is read back from any text that does not go on with it,
`Literal.read_spelled`, and every count and every finite double is spelled that way:
`Number.ofNat_grammatical`, `write_grammatical`.
-/

namespace TimeStepping

namespace Json

/-! ## Reading a spelling -/

/-- The text does not go on with the digits before it. -/
def EndsDigits (rest : List Char) : Prop :=
  ∀ c ∈ rest.head?, isDigit c = false

/-- The text does not go on with the number before it. -/
def EndsNumber (rest : List Char) : Prop :=
  ∀ c ∈ rest.head?, isDigit c = false ∧ c ≠ '.' ∧ c ≠ 'e' ∧ c ≠ 'E'

theorem EndsNumber.digits {rest : List Char} (h : EndsNumber rest) : EndsDigits rest :=
  fun c hc => (h c hc).1

theorem spanDigits_append {digits rest : List Char} (hdigits : ∀ c ∈ digits, isDigit c = true)
    (hrest : EndsDigits rest) : spanDigits (digits ++ rest) = (digits, rest) := by
  unfold spanDigits
  rw [List.takeWhile_append_of_pos hdigits, List.dropWhile_append_of_pos hdigits]
  cases rest with
  | nil => simp
  | cons c rest =>
      have hc : isDigit c = false := hrest c rfl
      simp [hc]

/-- A spelling of the grammar: no digits are missing, and no zero leads but a lone one. -/
structure Literal.Grammatical (n : Literal) : Prop where
  whole : ∀ c ∈ n.whole, isDigit c = true
  leading : n.whole = ['0'] ∨ ∃ first rest, n.whole = first :: rest ∧ first ≠ '0'
  fraction : ∀ c ∈ n.fraction, isDigit c = true
  exponent : ∀ sign digits, n.exponent = some (sign, digits) →
    digits ≠ [] ∧ ∀ c ∈ digits, isDigit c = true

namespace Literal

variable {n : Literal} {rest : List Char}

theorem readWhole_append (h : n.Grammatical) (hrest : EndsDigits rest) :
    readWhole (n.whole ++ rest) = some (n.whole, rest) := by
  unfold readWhole
  rw [spanDigits_append h.whole hrest]
  rcases h.leading with hzero | ⟨first, others, hfirst, hne⟩
  · rw [hzero]
    rfl
  · rw [hfirst]
    split
    · rename_i heq
      cases heq
    · rename_i heq
      cases heq
      exact absurd rfl hne
    · rename_i heq
      cases heq
      exact absurd rfl hne
    · rename_i heq
      cases heq
      rfl

/-- The point and the digits behind it, as they are spelled. -/
def fractionChars (fraction : List Char) : List Char :=
  if fraction.isEmpty then [] else '.' :: fraction

theorem readFraction_append (h : n.Grammatical) (hdigits : EndsDigits rest)
    (hpoint : '.' ∉ rest.head?) :
    readFraction (fractionChars n.fraction ++ rest) = some (n.fraction, rest) := by
  cases hfraction : n.fraction with
  | nil =>
      cases rest with
      | nil => rfl
      | cons c rest =>
          change readFraction (c :: rest) = _
          unfold readFraction
          split
          · rename_i heq
            cases heq
            exact absurd rfl hpoint
          · rfl
  | cons first others =>
      have hspan := spanDigits_append h.fraction hdigits
      rw [hfraction] at hspan
      change readFraction ('.' :: (first :: others ++ rest)) = _
      rw [readFraction, hspan]

/-- The exponent with its sign, as it is spelled. -/
def exponentChars : Option (Option Bool × List Char) → List Char
  | none => []
  | some (none, digits) => 'e' :: digits
  | some (some negative, digits) => 'e' :: (if negative then '-' else '+') :: digits

theorem readSign_digit {c : Char} {text : List Char} (h : isDigit c = true) :
    readSign (c :: text) = (none, c :: text) := by
  unfold readSign
  split
  · rename_i heq
    cases heq
    contradiction
  · rename_i heq
    cases heq
    contradiction
  · rfl

theorem readExponent_append (h : n.Grammatical) (hrest : EndsNumber rest) :
    readExponent (exponentChars n.exponent ++ rest) = some (n.exponent, rest) := by
  cases hexponent : n.exponent with
  | none =>
      cases rest with
      | nil => rfl
      | cons c rest =>
          obtain ⟨-, -, he, hE⟩ := hrest c rfl
          change readExponent (c :: rest) = _
          rw [readExponent, if_neg (by simp [he, hE])]
  | some exponent =>
      obtain ⟨sign, digits⟩ := exponent
      obtain ⟨hne, hdigits⟩ := h.exponent sign digits hexponent
      obtain ⟨first, others, rfl⟩ := List.exists_cons_of_ne_nil hne
      have hspan := spanDigits_append hdigits hrest.digits
      rcases sign with _ | _ | _
      · have hsign : readSign (first :: others ++ rest) = (none, first :: others ++ rest) :=
          readSign_digit (hdigits first List.mem_cons_self)
        change readExponent ('e' :: (first :: others ++ rest)) = _
        simp only [readExponent, true_or, if_true, hsign, hspan]
      · have hsign : readSign ('+' :: (first :: others ++ rest)) =
            (some false, first :: others ++ rest) := rfl
        change readExponent ('e' :: '+' :: (first :: others ++ rest)) = _
        simp only [readExponent, true_or, if_true, hsign, hspan]
      · have hsign : readSign ('-' :: (first :: others ++ rest)) =
            (some true, first :: others ++ rest) := rfl
        change readExponent ('e' :: '-' :: (first :: others ++ rest)) = _
        simp only [readExponent, true_or, if_true, hsign, hspan]

theorem spelled_eq (n : Literal) :
    n.spelled = (if n.negative then ['-'] else []) ++
      (n.whole ++ (fractionChars n.fraction ++ exponentChars n.exponent)) := by
  change (if n.negative then ['-'] else []) ++ n.whole ++ fractionChars n.fraction ++
    exponentChars n.exponent = _
  simp only [List.append_assoc]

theorem head?_exponentChars (exponent : Option (Option Bool × List Char)) (rest : List Char) :
    (exponentChars exponent ++ rest).head? = rest.head? ∨
      (exponentChars exponent ++ rest).head? = some 'e' := by
  rcases exponent with _ | ⟨_ | _, digits⟩
  · exact .inl rfl
  · exact .inr rfl
  · exact .inr rfl

theorem head?_fractionChars (fraction rest : List Char) :
    (fractionChars fraction ++ rest).head? = rest.head? ∨
      (fractionChars fraction ++ rest).head? = some '.' := by
  cases fraction with
  | nil => exact .inl rfl
  | cons first others => exact .inr rfl

theorem exists_whole_cons (h : n.Grammatical) :
    ∃ first others, n.whole = first :: others ∧ first ≠ '-' := by
  have hne : n.whole ≠ [] := by
    rcases h.leading with hzero | ⟨first, others, hfirst, -⟩
    · simp [hzero]
    · simp [hfirst]
  obtain ⟨first, others, hfirst⟩ := List.exists_cons_of_ne_nil hne
  refine ⟨first, others, hfirst, ?_⟩
  intro hminus
  have hdigit := h.whole first (by simp [hfirst])
  rw [hminus] at hdigit
  contradiction

/-- The number behind its sign. -/
def readUnsigned (negative : Bool) (text : List Char) : Option (Literal × List Char) := do
  let (whole, text) ← readWhole text
  let (fraction, text) ← readFraction text
  let (exponent, text) ← readExponent text
  pure (⟨negative, whole, fraction, exponent⟩, text)

/-- Take a minus off the text, if it begins with one. -/
def splitSign : List Char → Bool × List Char
  | '-' :: text => (true, text)
  | text => (false, text)

theorem read_eq (text : List Char) :
    read text = readUnsigned (splitSign text).1 (splitSign text).2 :=
  rfl

theorem splitSign_append {text : List Char} (negative : Bool) (h : '-' ∉ text.head?) :
    splitSign ((if negative then ['-'] else []) ++ text) = (negative, text) := by
  cases negative with
  | true => rfl
  | false =>
      change splitSign text = _
      unfold splitSign
      split
      · exact absurd rfl h
      · rfl

/-- A spelling of the grammar is read up to its end, wherever the text does not go on with it. -/
theorem read_spelled (h : n.Grammatical) (hrest : EndsNumber rest) :
    read (n.spelled ++ rest) = some (n, rest) := by
  have hexponent := readExponent_append h hrest
  have hafter : EndsDigits (exponentChars n.exponent ++ rest) ∧
      '.' ∉ (exponentChars n.exponent ++ rest).head? := by
    rcases head?_exponentChars n.exponent rest with hhead | hhead
    · unfold EndsDigits
      rw [hhead]
      exact ⟨hrest.digits, fun hpoint => (hrest '.' hpoint).2.1 rfl⟩
    · unfold EndsDigits
      rw [hhead]
      exact ⟨by simp; decide, by simp⟩
  have hfraction := readFraction_append h hafter.1 hafter.2
  have hbehind : EndsDigits (fractionChars n.fraction ++ (exponentChars n.exponent ++ rest)) := by
    rcases head?_fractionChars n.fraction (exponentChars n.exponent ++ rest) with hhead | hhead
    · unfold EndsDigits
      rw [hhead]
      exact hafter.1
    · unfold EndsDigits
      rw [hhead]
      simp
      decide
  have hwhole := readWhole_append h hbehind
  have hunsigned : ∀ negative, readUnsigned negative
      (n.whole ++ (fractionChars n.fraction ++ (exponentChars n.exponent ++ rest))) =
        some (⟨negative, n.whole, n.fraction, n.exponent⟩, rest) := by
    intro negative
    simp only [readUnsigned, hwhole, hfraction, hexponent, Option.bind_eq_bind, Option.bind_some]
    rfl
  rw [spelled_eq]
  simp only [List.append_assoc]
  have hhead : '-' ∉ (n.whole ++
      (fractionChars n.fraction ++ (exponentChars n.exponent ++ rest))).head? := by
    obtain ⟨first, others, hfirst, hminus⟩ := exists_whole_cons h
    simp [hfirst, hminus]
  rw [read_eq, splitSign_append n.negative hhead, hunsigned]

end Literal

/-! ## Writing numbers -/

theorem isDigit_of_mem_digits {n : Nat} {c : Char} (h : c ∈ Decimal.digits n) :
    isDigit c = true := by
  have hdigit := Decimal.isDigit_of_mem_digits h
  rw [Char.isDigit, Bool.and_eq_true, decide_eq_true_eq, decide_eq_true_eq] at hdigit
  exact decide_eq_true hdigit

theorem isDigit_of_mem_zeros {k : Nat} {c : Char} (h : c ∈ List.replicate k '0') :
    isDigit c = true := by
  rw [List.eq_of_mem_replicate h]
  rfl

namespace Number

theorem digits_leading (n : Nat) :
    Decimal.digits n = ['0'] ∨ ∃ first rest, Decimal.digits n = first :: rest ∧ first ≠ '0' := by
  by_cases hn : n = 0
  · rw [hn]
    exact .inl Decimal.digits_zero
  · exact .inr (Decimal.exists_digits_cons hn)

theorem ofNat_grammatical (n : Nat) : (ofNat n).Grammatical where
  whole := fun _ => isDigit_of_mem_digits
  leading := digits_leading n
  fraction := by simp [ofNat]
  exponent := by simp [ofNat]

theorem mem_positional {d : Decimal} {c : Char} (h : c ∈ d.positional.1 ∨ c ∈ d.positional.2) :
    isDigit c = true := by
  unfold Decimal.positional at h
  dsimp only at h
  split at h
  · rcases h with h | h
    · rcases List.mem_append.mp h with h | h
      · exact isDigit_of_mem_digits h
      · exact isDigit_of_mem_zeros h
    · cases h
  · split at h
    · rcases h with h | h
      · exact isDigit_of_mem_digits (List.mem_of_mem_take h)
      · exact isDigit_of_mem_digits (List.mem_of_mem_drop h)
    · rcases h with h | h
      · rw [List.mem_singleton.mp h]
        rfl
      · rcases List.mem_append.mp h with h | h
        · exact isDigit_of_mem_zeros h
        · exact isDigit_of_mem_digits h

theorem positional_leading {d : Decimal} (h : d.Proper) :
    d.positional.1 = ['0'] ∨
      ∃ first rest, d.positional.1 = first :: rest ∧ first ≠ '0' := by
  unfold Decimal.positional
  dsimp only
  by_cases hcoefficient : d.coefficient = 0
  · rw [hcoefficient, Decimal.digits_zero]
    have hexponent : d.exponent ≤ 0 := h.resolve_left (fun hne => hne hcoefficient)
    left
    split
    · rename_i e he
      have hzero : e = 0 := by
        rw [he] at hexponent
        exact Nat.le_zero.mp (Int.ofNat_le.mp hexponent)
      rw [hzero]
      rfl
    · rw [if_neg (by simp)]
  · obtain ⟨first, rest, hdigits, hfirst⟩ := Decimal.exists_digits_cons hcoefficient
    rw [hdigits]
    split
    · exact .inr ⟨first, _, List.cons_append, hfirst⟩
    · split
      · rename_i e _ hplaces
        obtain ⟨k, hk⟩ : ∃ k, (first :: rest).length - (e + 1) = k + 1 :=
          ⟨(first :: rest).length - (e + 1) - 1, by omega⟩
        right
        dsimp only
        rw [hk]
        exact ⟨first, rest.take k, List.take_succ_cons, hfirst⟩
      · exact .inl rfl

theorem spell_grammatical (layout : Layout) (negative : Bool) {d : Decimal} (h : d.Proper) :
    (spell layout negative d).Grammatical := by
  unfold spell
  dsimp only
  split
  · exact {
      whole := fun c hc => mem_positional (.inl hc)
      leading := positional_leading h
      fraction := by
        dsimp only
        split
        · simp
          decide
        · exact fun c hc => mem_positional (.inr hc)
      exponent := by simp }
  · rename_i hscientific
    have hcoefficient : d.coefficient ≠ 0 := fun hzero => hscientific (.inl hzero)
    obtain ⟨first, rest, hdigits, hfirst⟩ := Decimal.exists_digits_cons hcoefficient
    exact {
      whole := fun c hc => isDigit_of_mem_digits (List.mem_of_mem_take hc)
      leading := by
        right
        dsimp only
        rw [hdigits]
        exact ⟨first, [], rfl, hfirst⟩
      fraction := fun c hc => isDigit_of_mem_digits (List.mem_of_mem_drop hc)
      exponent := by
        intro sign digits hexponent
        cases hexponent
        exact ⟨Decimal.digits_ne_nil _, fun c => isDigit_of_mem_digits⟩ }

theorem le_ofDigitChars (ds : List Char) (n : Nat) : n ≤ Nat.ofDigitChars 10 ds n := by
  rw [Nat.ofDigitChars_eq_ofDigitChars_zero]
  have hpow : 0 < 10 ^ ds.length := Nat.pow_pos (by decide)
  have hle := Nat.le_mul_of_pos_left n hpow
  omega

/-- Digits whose value stays within the limit are all taken. -/
theorem appendDigits_eq {limit : Nat} {ds : List Char} {n : Nat}
    (h : Nat.ofDigitChars 10 ds n ≤ limit) :
    appendDigits limit n ds = (Nat.ofDigitChars 10 ds n, 0) := by
  induction ds generalizing n with
  | nil => simp [appendDigits]
  | cons c ds ih =>
      rw [Nat.ofDigitChars_cons, Nat.mul_comm 10 n] at h ⊢
      have hnext : n * 10 + digitValue c ≤ limit := Nat.le_trans (le_ofDigitChars ds _) h
      rw [appendDigits, if_pos hnext]
      exact ih h

/-- A count within the limit is read back. -/
theorem toNat?_ofNat {limit n : Nat} (h : n ≤ limit) : toNat? limit (ofNat n) = some n := by
  have hvalue : Nat.ofDigitChars 10 (Decimal.digits n) 0 = n := Nat.ofDigitChars_ten_toDigits
  have hall : appendDigits limit 0 (Decimal.digits n) = (n, 0) := by
    rw [appendDigits_eq (by rwa [hvalue]), hvalue]
  unfold toNat? ofNat
  simp [hall]

end Number

end Json

theorem write_grammatical {x : Float} {n : Json.Literal} (h : JsonNumber.write x = some n) :
    n.Grammatical := by
  by_cases hx : x.isFinite = true
  · obtain ⟨negative, m, e, hfinite⟩ := Binary.ofFloat_of_finite hx
    rw [write_of_finite hfinite] at h
    cases h
    exact Json.Number.spell_grammatical _ _ (Decimal.shortest_proper _ m e)
  · rw [write_of_not_finite (Bool.eq_false_iff.2 hx)] at h
    cases h

end TimeStepping
