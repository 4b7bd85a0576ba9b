import TimeStepping.Proofs.Json.Numerals

/-!
# Reading what was printed

A value whose numbers and strings are spelled by the rules, `Json.Spellable`, is read back from
its indented text, `read?_pretty`.  Every reader gets what follows its part as it is, so each
lemma is about a text with an arbitrary continuation.
-/

namespace TimeStepping

namespace Json

/-! ## Spelled strings -/

/-- The closing quote of the string is the first quote that ends it. -/
def Spelling.Closed (spelling : List Char) : Prop :=
  ∀ rest, Spelling.scan (spelling ++ '"' :: rest) = some (spelling, rest)

/-- Nothing in the string has to be escaped. -/
def Spelling.Plain (spelling : List Char) : Prop :=
  ∀ c ∈ spelling, c ≠ '"' ∧ c ≠ '\\' ∧ 32 ≤ c.toNat

instance (spelling : List Char) : Decidable (Spelling.Plain spelling) :=
  List.decidableBAll _ spelling

namespace Spelling

theorem scan_cons {c : Char} {text : List Char} (hquote : c ≠ '"') (hescape : c ≠ '\\')
    (hcontrol : 32 ≤ c.toNat) :
    scan (c :: text) = (scan text).map fun found => (c :: found.1, found.2) := by
  rw [scan]
  · rw [if_neg (not_or.2 ⟨hescape, Nat.not_lt.2 hcontrol⟩)]
  · exact fun h => hquote h
  · intro a b c d rest h
    exact absurd h hescape
  · intro e rest h
    exact absurd h hescape

theorem Plain.closed {spelling : List Char} (h : Plain spelling) : Closed spelling := by
  intro rest
  induction spelling with
  | nil => rfl
  | cons c spelling ih =>
      obtain ⟨hquote, hescape, hcontrol⟩ := h c List.mem_cons_self
      rw [List.cons_append, scan_cons hquote hescape hcontrol,
        ih (fun c' hc' => h c' (List.mem_cons_of_mem _ hc'))]
      rfl

theorem Plain.decode_eq {spelling : List Char} (h : Plain spelling) :
    decode spelling = some spelling := by
  induction spelling with
  | nil => rfl
  | cons c spelling ih =>
      obtain ⟨-, hescape, -⟩ := h c List.mem_cons_self
      rw [decode]
      · rw [ih (fun c' hc' => h c' (List.mem_cons_of_mem _ hc'))]
        rfl
      all_goals
        intros
        rename_i heq _
        exact absurd heq hescape

end Spelling

/-! ## Blanks -/

def isBlank (c : Char) : Prop :=
  c = ' ' ∨ c = '\t' ∨ c = '\n' ∨ c = '\r'

instance (c : Char) : Decidable (isBlank c) :=
  inferInstanceAs (Decidable (c = ' ' ∨ c = '\t' ∨ c = '\n' ∨ c = '\r'))

theorem not_isBlank_of_isDigit {c : Char} (h : isDigit c = true) : ¬isBlank c := by
  intro hblank
  rcases hblank with hc | hc | hc | hc
  all_goals
    rw [hc] at h
    contradiction

theorem skipBlanks_blank {c : Char} (h : isBlank c) (text : List Char) :
    skipBlanks (c :: text) = skipBlanks text := by
  rw [skipBlanks]
  exact if_pos h

theorem skipBlanks_of_not_blank {c : Char} (h : ¬isBlank c) (text : List Char) :
    skipBlanks (c :: text) = c :: text := by
  rw [skipBlanks]
  exact if_neg h

theorem skipBlanks_replicate (count : Nat) (text : List Char) :
    skipBlanks (List.replicate count ' ' ++ text) = skipBlanks text := by
  induction count with
  | zero => rfl
  | succ count ih =>
      rw [List.replicate_succ, List.cons_append, skipBlanks_blank (.inl rfl), ih]

theorem skipBlanks_lineEnd (level : Nat) (text : List Char) :
    skipBlanks (lineEnd level ++ text) = skipBlanks text := by
  rw [lineEnd, List.cons_append, skipBlanks_blank (.inr (.inr (.inl rfl))), skipBlanks_replicate]

theorem endsNumber_lineEnd (level : Nat) (text : List Char) :
    EndsNumber (lineEnd level ++ text) := by
  intro c hc
  cases hc
  decide

theorem endsNumber_comma (text : List Char) : EndsNumber (',' :: text) := by
  intro c hc
  cases hc
  decide

/-! ## Values -/

/-- All numbers and strings of the value are spelled by the rules. -/
inductive Spellable : Json → Prop
  | null : Spellable null
  | bool (b : Bool) : Spellable (bool b)
  | number {n : Literal} (spelled : n.Grammatical) : Spellable (number n)
  | string {s : List Char} (closed : Spelling.Closed s) : Spellable (string s)
  | array {es : List Json} (elements : ∀ e ∈ es, Spellable e) : Spellable (array es)
  | object {ms : List (List Char × Json)} (names : ∀ m ∈ ms, Spelling.Closed m.1)
      (values : ∀ m ∈ ms, Spellable m.2) : Spellable (object ms)

/-- Printed on any level, the value is read back with as much fuel as its text is long. -/
def ReadBack (j : Json) : Prop :=
  ∀ level fuel rest, (prettyChars level j).length ≤ fuel → EndsNumber rest →
    readValue fuel (prettyChars level j ++ rest) = some (j, rest)

theorem readValue_null (fuel : Nat) (rest : List Char) :
    readValue (fuel + 1) ("null".toList ++ rest) = some (null, rest) :=
  rfl

theorem readValue_bool (fuel : Nat) (b : Bool) (rest : List Char) :
    readValue (fuel + 1) ((if b then "true" else "false").toList ++ rest) =
      some (bool b, rest) := by
  cases b with
  | false => rfl
  | true => rfl

theorem readValue_quoted (fuel : Nat) {s : List Char} (h : Spelling.Closed s) (rest : List Char) :
    readValue (fuel + 1) (quoted s ++ rest) = some (string s, rest) := by
  have hscan := h rest
  change (Spelling.scan (s ++ ['"'] ++ rest)).map _ = _
  rw [List.append_assoc]
  change (Spelling.scan (s ++ '"' :: rest)).map _ = _
  rw [hscan]
  rfl

/-- Text that begins like no other value is read as a number. -/
theorem readValue_other (fuel : Nat) {c : Char} (h : c ∉ ['n', 't', 'f', '"', '[', '\x7b'])
    (text : List Char) :
    readValue (fuel + 1) (c :: text) =
      (Literal.read (c :: text)).map fun found => (number found.1, found.2) := by
  rw [readValue]
  all_goals
    intro _ heq
    cases heq
    exact h (by decide)

theorem exists_spelled_cons {n : Literal} (h : n.Grammatical) :
    ∃ c rest, n.spelled = c :: rest ∧ (c = '-' ∨ isDigit c = true) := by
  rw [Literal.spelled_eq]
  cases n.negative with
  | true => exact ⟨'-', _, rfl, .inl rfl⟩
  | false =>
      obtain ⟨first, others, hfirst, -⟩ := Literal.exists_whole_cons h
      have hdigit := h.whole first (by simp [hfirst])
      rw [hfirst]
      exact ⟨first, _, rfl, .inr hdigit⟩

theorem readValue_number (fuel : Nat) {n : Literal} (h : n.Grammatical) {rest : List Char}
    (hrest : EndsNumber rest) :
    readValue (fuel + 1) (n.spelled ++ rest) = some (number n, rest) := by
  obtain ⟨c, others, hspelled, hc⟩ := exists_spelled_cons h
  have hread := Literal.read_spelled h hrest
  have hother : c ∉ ['n', 't', 'f', '"', '[', '\x7b'] := by
    rcases hc with hc | hc
    · rw [hc]
      decide
    · intro hmem
      have hnone : ['n', 't', 'f', '"', '[', '\x7b'].all fun c => !isDigit c := by decide
      have hdigit := List.all_eq_true.1 hnone c hmem
      rw [hc] at hdigit
      contradiction
  rw [hspelled, List.cons_append] at hread ⊢
  rw [readValue_other fuel hother, hread]
  rfl

theorem readValue_emptyArray (fuel : Nat) (rest : List Char) :
    readValue (fuel + 1) ('[' :: ']' :: rest) = some (array [], rest) :=
  rfl

theorem readValue_emptyObject (fuel : Nat) (rest : List Char) :
    readValue (fuel + 1) ('\x7b' :: '\x7d' :: rest) = some (object [], rest) :=
  rfl

theorem readValue_array (fuel : Nat) {text : List Char} (h : ']' ∉ (skipBlanks text).head?) :
    readValue (fuel + 1) ('[' :: text) =
      (readElements fuel (skipBlanks text)).map fun found => (array found.1, found.2) := by
  rw [readValue]
  split
  · rename_i heq
    rw [heq] at h
    exact absurd rfl h
  · rfl

theorem readValue_object (fuel : Nat) {text : List Char} (h : '\x7d' ∉ (skipBlanks text).head?) :
    readValue (fuel + 1) ('\x7b' :: text) =
      (readMembers fuel (skipBlanks text)).map fun found => (object found.1, found.2) := by
  rw [readValue]
  split
  · rename_i heq
    rw [heq] at h
    exact absurd rfl h
  · rfl

theorem exists_prettyChars_cons {j : Json} (h : j.Spellable) (level : Nat) :
    ∃ c rest, prettyChars level j = c :: rest ∧ ¬isBlank c ∧ c ≠ ']' := by
  cases h with
  | null => exact ⟨'n', _, rfl, by decide, by decide⟩
  | bool b =>
      cases b with
      | false => exact ⟨'f', _, rfl, by decide, by decide⟩
      | true => exact ⟨'t', _, rfl, by decide, by decide⟩
  | number hn =>
      obtain ⟨c, rest, hspelled, hc⟩ := exists_spelled_cons hn
      refine ⟨c, rest, hspelled, ?_⟩
      rcases hc with hc | hc
      · rw [hc]
        decide
      · exact ⟨not_isBlank_of_isDigit hc, fun hbracket => by rw [hbracket] at hc; contradiction⟩
  | string => exact ⟨'"', _, rfl, by decide, by decide⟩
  | array =>
      rename_i es _
      cases es with
      | nil => exact ⟨'[', _, rfl, by decide, by decide⟩
      | cons e es => exact ⟨'[', _, rfl, by decide, by decide⟩
  | object =>
      rename_i ms _ _
      cases ms with
      | nil => exact ⟨'\x7b', _, rfl, by decide, by decide⟩
      | cons m ms => exact ⟨'\x7b', _, rfl, by decide, by decide⟩

theorem skipBlanks_prettyChars {j : Json} (h : j.Spellable) (level : Nat) (rest : List Char) :
    skipBlanks (prettyChars level j ++ rest) = prettyChars level j ++ rest := by
  obtain ⟨c, others, hpretty, hblank, -⟩ := exists_prettyChars_cons h level
  rw [hpretty, List.cons_append, skipBlanks_of_not_blank hblank]

/-! ## Elements -/

theorem readElements_last {fuel : Nat} {text after rest : List Char} {e : Json}
    (helement : readValue fuel text = some (e, after)) (hclose : skipBlanks after = ']' :: rest) :
    readElements (fuel + 1) text = some ([e], rest) := by
  simp only [readElements, helement, hclose, Option.bind_eq_bind, Option.bind_some]
  rfl

theorem readElements_next {fuel : Nat} {text after rest : List Char} {e : Json} {es : List Json}
    (helement : readValue fuel text = some (e, ',' :: after))
    (hmore : readElements fuel (skipBlanks after) = some (es, rest)) :
    readElements (fuel + 1) text = some (e :: es, rest) := by
  rw [readElements, helement]
  change (readElements fuel (skipBlanks after)).bind (fun found =>
    some (e :: found.1, found.2)) = _
  rw [hmore]
  rfl

theorem prettyElements_next (level : Nat) (e e' : Json) (es : List Json) :
    prettyElements level (e :: e' :: es) =
      lineEnd level ++ (prettyChars level e ++ ',' :: prettyElements level (e' :: es)) := by
  rw [prettyElements, List.append_assoc]
  exact fun h => by cases h

theorem exists_prettyElements_cons (level : Nat) (e : Json) (es : List Json) :
    ∃ more, prettyElements level (e :: es) = lineEnd level ++ (prettyChars level e ++ more) := by
  cases es with
  | nil => exact ⟨[], by rw [prettyElements, List.append_nil]⟩
  | cons e' es => exact ⟨_, prettyElements_next level e e' es⟩

theorem readElements_prettyElements {level outer : Nat} {es : List Json}
    (hspellable : ∀ e ∈ es, e.Spellable) (hread : ∀ e ∈ es, e.ReadBack) (hes : es ≠ [])
    {fuel : Nat} (hfuel : (prettyElements level es).length ≤ fuel) (rest : List Char) :
    readElements fuel (skipBlanks (prettyElements level es ++ (lineEnd outer ++ ']' :: rest))) =
      some (es, rest) := by
  induction es generalizing fuel with
  | nil => contradiction
  | cons e es ih =>
      have hspell := hspellable e List.mem_cons_self
      have hback := hread e List.mem_cons_self
      have hend : 0 < (lineEnd level).length := Nat.succ_pos _
      cases es with
      | nil =>
          rw [prettyElements, List.length_append] at hfuel
          obtain ⟨fuel, rfl⟩ := Nat.exists_eq_succ_of_ne_zero (show fuel ≠ 0 by omega)
          rw [prettyElements, List.append_assoc, skipBlanks_lineEnd, skipBlanks_prettyChars hspell]
          have helement := hback level fuel (lineEnd outer ++ ']' :: rest) (by omega)
            (endsNumber_lineEnd outer _)
          apply readElements_last helement
          rw [skipBlanks_lineEnd]
          exact skipBlanks_of_not_blank (by decide) rest
      | cons e' es =>
          rw [prettyElements_next] at hfuel ⊢
          simp only [List.length_append, List.length_cons] at hfuel
          obtain ⟨fuel, rfl⟩ := Nat.exists_eq_succ_of_ne_zero (show fuel ≠ 0 by omega)
          simp only [List.append_assoc, List.cons_append]
          rw [skipBlanks_lineEnd, skipBlanks_prettyChars hspell]
          have helement := hback level fuel
            (',' :: (prettyElements level (e' :: es) ++ (lineEnd outer ++ ']' :: rest))) (by omega)
            (endsNumber_comma _)
          apply readElements_next helement
          exact ih (fun e h => hspellable e (List.mem_cons_of_mem _ h))
            (fun e h => hread e (List.mem_cons_of_mem _ h)) (by simp) (by omega)

/-! ## Members -/

/-- Behind the name and its colon, the value is read and then what ends the member. -/
theorem readMembers_quoted (fuel : Nat) {name : List Char} (h : Spelling.Closed name)
    (after : List Char) :
    readMembers (fuel + 1) (quoted name ++ ':' :: after) =
      (readValue fuel (skipBlanks after)).bind fun found =>
        match skipBlanks found.2 with
        | '\x7d' :: rest => some ([(name, found.1)], rest)
        | ',' :: rest => (readMembers fuel (skipBlanks rest)).bind fun more =>
            some ((name, found.1) :: more.1, more.2)
        | _ => none := by
  have htext : quoted name ++ ':' :: after = '"' :: (name ++ '"' :: ':' :: after) := by
    simp [quoted]
  rw [htext, readMembers, h (':' :: after)]
  rfl

theorem readMembers_last {fuel : Nat} {name after behind rest : List Char} {v : Json}
    (hname : Spelling.Closed name) (hvalue : readValue fuel (skipBlanks after) = some (v, behind))
    (hclose : skipBlanks behind = '\x7d' :: rest) :
    readMembers (fuel + 1) (quoted name ++ ':' :: after) = some ([(name, v)], rest) := by
  rw [readMembers_quoted fuel hname, hvalue, Option.bind_some, hclose]
  rfl

theorem readMembers_next {fuel : Nat} {name after behind rest : List Char} {v : Json}
    {ms : List (List Char × Json)} (hname : Spelling.Closed name)
    (hvalue : readValue fuel (skipBlanks after) = some (v, ',' :: behind))
    (hmore : readMembers fuel (skipBlanks behind) = some (ms, rest)) :
    readMembers (fuel + 1) (quoted name ++ ':' :: after) = some ((name, v) :: ms, rest) := by
  rw [readMembers_quoted fuel hname, hvalue, Option.bind_some,
    skipBlanks_of_not_blank (by decide)]
  change (readMembers fuel (skipBlanks behind)).bind _ = _
  rw [hmore]
  rfl

theorem prettyMembers_last (level : Nat) (name : List Char) (v : Json) :
    prettyMembers level [(name, v)] =
      lineEnd level ++ (quoted name ++ ':' :: ' ' :: prettyChars level v) := by
  rw [prettyMembers, List.append_assoc]

theorem prettyMembers_next (level : Nat) (name : List Char) (v : Json) (m : List Char × Json)
    (ms : List (List Char × Json)) :
    prettyMembers level ((name, v) :: m :: ms) =
      lineEnd level ++ (quoted name ++ ':' :: ' ' :: (prettyChars level v ++
        ',' :: prettyMembers level (m :: ms))) := by
  rw [prettyMembers, List.append_assoc, List.append_assoc]
  · rfl
  · exact fun h => by cases h

theorem exists_prettyMembers_cons (level : Nat) (m : List Char × Json)
    (ms : List (List Char × Json)) :
    ∃ more, prettyMembers level (m :: ms) = lineEnd level ++ '"' :: more := by
  obtain ⟨name, v⟩ := m
  cases ms with
  | nil => exact ⟨_, prettyMembers_last level name v⟩
  | cons m' ms => exact ⟨_, prettyMembers_next level name v m' ms⟩

theorem readMembers_prettyMembers {level outer : Nat} {ms : List (List Char × Json)}
    (hnames : ∀ m ∈ ms, Spelling.Closed m.1) (hspellable : ∀ m ∈ ms, m.2.Spellable)
    (hread : ∀ m ∈ ms, m.2.ReadBack) (hms : ms ≠ []) {fuel : Nat}
    (hfuel : (prettyMembers level ms).length ≤ fuel) (rest : List Char) :
    readMembers fuel (skipBlanks (prettyMembers level ms ++ (lineEnd outer ++ '\x7d' :: rest))) =
      some (ms, rest) := by
  induction ms generalizing fuel with
  | nil => contradiction
  | cons m ms ih =>
      obtain ⟨name, v⟩ := m
      have hname := hnames _ List.mem_cons_self
      have hspell : v.Spellable := hspellable _ List.mem_cons_self
      have hback : v.ReadBack := hread _ List.mem_cons_self
      have hend : 0 < (lineEnd level).length := Nat.succ_pos _
      have hquoted : ∀ text, skipBlanks (quoted name ++ text) = quoted name ++ text :=
        fun text => skipBlanks_of_not_blank (by decide) _
      have hskip : ∀ text, skipBlanks (' ' :: (prettyChars level v ++ text)) =
          prettyChars level v ++ text := by
        intro text
        rw [skipBlanks_blank (.inl rfl), skipBlanks_prettyChars hspell]
      cases ms with
      | nil =>
          rw [prettyMembers_last] at hfuel ⊢
          simp only [List.length_append, List.length_cons] at hfuel
          obtain ⟨fuel, rfl⟩ := Nat.exists_eq_succ_of_ne_zero (show fuel ≠ 0 by omega)
          simp only [List.append_assoc, List.cons_append]
          rw [skipBlanks_lineEnd, hquoted]
          have hvalue := hback level fuel (lineEnd outer ++ '\x7d' :: rest) (by omega)
            (endsNumber_lineEnd outer _)
          apply readMembers_last hname ((congrArg _ (hskip _)).trans hvalue)
          rw [skipBlanks_lineEnd]
          exact skipBlanks_of_not_blank (by decide) rest
      | cons m' ms =>
          rw [prettyMembers_next] at hfuel ⊢
          simp only [List.length_append, List.length_cons] at hfuel
          obtain ⟨fuel, rfl⟩ := Nat.exists_eq_succ_of_ne_zero (show fuel ≠ 0 by omega)
          simp only [List.append_assoc, List.cons_append]
          rw [skipBlanks_lineEnd, hquoted]
          have hvalue := hback level fuel
            (',' :: (prettyMembers level (m' :: ms) ++ (lineEnd outer ++ '\x7d' :: rest)))
            (by omega) (endsNumber_comma _)
          apply readMembers_next hname ((congrArg _ (hskip _)).trans hvalue)
          exact ih (fun m h => hnames m (List.mem_cons_of_mem _ h))
            (fun m h => hspellable m (List.mem_cons_of_mem _ h))
            (fun m h => hread m (List.mem_cons_of_mem _ h)) (by simp) (by omega)

/-! ## Whole values -/

theorem readBack_of_succ {j : Json} (hj : j.Spellable)
    (h : ∀ level fuel rest, (prettyChars level j).length ≤ fuel + 1 → EndsNumber rest →
      readValue (fuel + 1) (prettyChars level j ++ rest) = some (j, rest)) : j.ReadBack := by
  intro level fuel rest hfuel hrest
  obtain ⟨c, others, hpretty, -⟩ := exists_prettyChars_cons hj level
  cases fuel with
  | zero =>
      rw [hpretty] at hfuel
      cases hfuel
  | succ fuel => exact h level fuel rest hfuel hrest

theorem array_readBack {es : List Json} (hspellable : ∀ e ∈ es, e.Spellable)
    (hread : ∀ e ∈ es, e.ReadBack) : (array es).ReadBack := by
  apply readBack_of_succ (.array hspellable)
  intro level fuel rest hfuel _
  cases es with
  | nil => exact readValue_emptyArray fuel rest
  | cons e es =>
      have htext : prettyChars level (array (e :: es)) =
          '[' :: (prettyElements (level + 1) (e :: es) ++ (lineEnd level ++ [']'])) := by
        rw [prettyChars, List.append_assoc]
        · rfl
        · exact fun h => by cases h
      have hfirst : ∀ text, ']' ∉
          (skipBlanks (prettyElements (level + 1) (e :: es) ++ text)).head? := by
        intro text
        obtain ⟨more, hmore⟩ := exists_prettyElements_cons (level + 1) e es
        obtain ⟨c, others, hpretty, hblank, hbracket⟩ :=
          exists_prettyChars_cons (hspellable e List.mem_cons_self) (level + 1)
        rw [hmore, List.append_assoc, skipBlanks_lineEnd, hpretty]
        simp only [List.cons_append]
        rw [skipBlanks_of_not_blank hblank]
        intro hmem
        exact hbracket (Option.some.inj hmem)
      rw [htext] at hfuel ⊢
      simp only [List.length_append, List.length_cons] at hfuel
      simp only [List.cons_append, List.append_assoc, List.nil_append]
      rw [readValue_array fuel (hfirst _),
        readElements_prettyElements hspellable hread (by simp) (by omega)]
      rfl

theorem object_readBack {ms : List (List Char × Json)} (hnames : ∀ m ∈ ms, Spelling.Closed m.1)
    (hspellable : ∀ m ∈ ms, m.2.Spellable) (hread : ∀ m ∈ ms, m.2.ReadBack) :
    (object ms).ReadBack := by
  apply readBack_of_succ (.object hnames hspellable)
  intro level fuel rest hfuel _
  cases ms with
  | nil => exact readValue_emptyObject fuel rest
  | cons m ms =>
      have htext : prettyChars level (object (m :: ms)) =
          '\x7b' :: (prettyMembers (level + 1) (m :: ms) ++ (lineEnd level ++ ['\x7d'])) := by
        rw [prettyChars, List.append_assoc]
        · rfl
        · exact fun h => by cases h
      have hfirst : ∀ text, '\x7d' ∉
          (skipBlanks (prettyMembers (level + 1) (m :: ms) ++ text)).head? := by
        intro text
        obtain ⟨more, hmore⟩ := exists_prettyMembers_cons (level + 1) m ms
        rw [hmore, List.append_assoc, skipBlanks_lineEnd]
        intro hmem
        cases hmem
      rw [htext] at hfuel ⊢
      simp only [List.length_append, List.length_cons] at hfuel
      simp only [List.cons_append, List.append_assoc, List.nil_append]
      rw [readValue_object fuel (hfirst _),
        readMembers_prettyMembers hnames hspellable hread (by simp) (by omega)]
      rfl

theorem Spellable.readBack {j : Json} (h : j.Spellable) : j.ReadBack := by
  induction h with
  | null => exact readBack_of_succ .null fun _ fuel rest _ _ => readValue_null fuel rest
  | bool b => exact readBack_of_succ (.bool b) fun _ fuel rest _ _ => readValue_bool fuel b rest
  | number hn =>
      exact readBack_of_succ (.number hn) fun _ fuel _ _ hrest => readValue_number fuel hn hrest
  | string hs =>
      exact readBack_of_succ (.string hs) fun _ fuel rest _ _ => readValue_quoted fuel hs rest
  | array elements ih => exact array_readBack elements ih
  | object names values ih => exact object_readBack names values ih

/-- Whatever is spelled by the rules survives being printed and read. -/
theorem read?_pretty {j : Json} (h : j.Spellable) : read? j.pretty = some j := by
  have hread := h.readBack 0 (2 * (prettyChars 0 j).length + 1) [] (by omega) (by simp [EndsNumber])
  rw [List.append_nil] at hread
  have hskip := skipBlanks_prettyChars h 0 []
  rw [List.append_nil] at hskip
  have htext : j.pretty.toList = prettyChars 0 j := String.toList_ofList
  unfold read?
  dsimp only
  rw [htext, hskip, hread]
  rfl

end Json

end TimeStepping
