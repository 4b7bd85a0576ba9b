import Mathlib.Algebra.Group.Nat.Defs
import Mathlib.Tactic.ByContra
import TimeStepping.Decimal.Shortest

/-!
# Digits of decimals

The digits of a number lead with a zero only for zero itself, and a decimal that reads back as a
double that is not zero is not zero either.  So no decimal a double is written as has zeros
behind a zero before the point: it is `Decimal.Proper`.
-/

namespace TimeStepping

namespace Decimal

/-! ## Digits of a number -/

theorem isDigit_of_mem_digits {n : Nat} {c : Char} (h : c ∈ digits n) : c.isDigit = true :=
  Nat.isDigit_of_mem_toDigits (by decide) (by decide) h

theorem digits_zero : digits 0 = ['0'] :=
  rfl

theorem digits_ne_nil (n : Nat) : digits n ≠ [] :=
  Nat.toDigits_ne_nil

/-- No zero leads the digits of a number that is not zero. -/
theorem exists_digits_cons {n : Nat} (h : n ≠ 0) :
    ∃ first rest, digits n = first :: rest ∧ first ≠ '0' := by
  induction n using Nat.strongRecOn with
  | ind n ih =>
      unfold digits at ih ⊢
      by_cases hn : n < 10
      · have hfirst : n.digitChar ≠ '0' := by
          rw [Ne, Nat.digitChar_eq_zero]
          exact h
        exact ⟨n.digitChar, [], Nat.toDigits_of_lt_base hn, hfirst⟩
      · have hquotient : n / 10 ≠ 0 := by omega
        obtain ⟨first, rest, hdigits, hfirst⟩ := ih (n / 10) (by omega) hquotient
        refine ⟨first, rest ++ [Nat.digitChar (n % 10)], ?_, hfirst⟩
        rw [Nat.toDigits_of_base_le (by decide) (by omega), hdigits, List.cons_append]

theorem pow_length_digits_le {n : Nat} (h : n ≠ 0) : 10 ^ ((digits n).length - 1) ≤ n := by
  by_contra hlt
  have hshort : n < 10 ^ ((digits n).length - 1) := Nat.lt_of_not_le hlt
  have hpos : 0 < (digits n).length := List.length_pos_iff.2 (digits_ne_nil n)
  by_cases hone : (digits n).length = 1
  · rw [hone, Nat.sub_self, Nat.pow_zero] at hshort
    omega
  · have hle := (Nat.length_toDigits_le_iff (b := 10) (by decide)
      (show 0 < (digits n).length - 1 by omega)).mpr hshort
    change (digits n).length ≤ _ at hle
    omega

/-! ## Proper decimals -/

/-- No zeros stand behind a zero before the point. -/
def Proper (d : Decimal) : Prop :=
  d.coefficient ≠ 0 ∨ d.exponent ≤ 0

theorem trimmed_proper {fuel : Nat} {d : Decimal} (h : d.Proper) : (trimmed fuel d).Proper := by
  induction fuel generalizing d with
  | zero => exact h
  | succ fuel ih =>
      unfold trimmed
      split
      · rename_i htrailing
        apply ih
        left
        show d.coefficient / 10 ≠ 0
        omega
      · exact h

namespace Neighbourhood

theorem scaled_numerator_pos {n : Nat} {base : Nat} {exponent : Int} (hn : 0 < n)
    (hbase : 0 < base) : 0 < (Fraction.scaled n base exponent).numerator := by
  cases exponent with
  | ofNat e => exact Nat.mul_pos hn (Nat.pow_pos hbase)
  | negSucc e => exact hn

theorem scaled_zero_numerator (base : Nat) (exponent : Int) :
    (Fraction.scaled 0 base exponent).numerator = 0 := by
  cases exponent with
  | ofNat e => exact Nat.zero_mul _
  | negSucc e => rfl

theorem scaled_denominator_pos (n : Nat) {base : Nat} (exponent : Int) (hbase : 0 < base) :
    0 < (Fraction.scaled n base exponent).denominator := by
  cases exponent with
  | ofNat e => exact Nat.one_pos
  | negSucc e => exact Nat.pow_pos hbase

variable {m : Nat} {e : Int}

theorem low_numerator_pos (hm : m ≠ 0) : 0 < (ofBinary m e).low.numerator := by
  unfold ofBinary
  dsimp only
  split
  · exact scaled_numerator_pos (by omega) (by decide)
  · exact scaled_numerator_pos (by omega) (by decide)

/-- The lower end of the interval is above zero, and so is every decimal in it. -/
theorem coefficient_ne_zero {d : Decimal} (hm : m ≠ 0) (h : (ofBinary m e).holds d = true) :
    d.coefficient ≠ 0 := by
  intro hzero
  have hlow := low_numerator_pos (e := e) hm
  have hnumerator := scaled_zero_numerator 10 d.exponent
  have hdenominator := scaled_denominator_pos 0 d.exponent (show 0 < 10 by decide)
  have hproduct := Nat.mul_pos hlow hdenominator
  unfold holds at h
  rw [hzero] at h
  dsimp only at h
  split at h
  · rw [Bool.and_eq_true] at h
    have hle := of_decide_eq_true h.1
    rw [hnumerator, Nat.zero_mul] at hle
    omega
  · rw [Bool.and_eq_true] at h
    have hlt := of_decide_eq_true h.1
    rw [hnumerator, Nat.zero_mul] at hlt
    omega

theorem holds_of_onGrid {n : Neighbourhood} {tie : Tie} {exponent : Int} {d : Decimal}
    (h : n.onGrid tie exponent = some d) : n.holds d = true := by
  unfold onGrid at h
  dsimp only at h
  split at h
  · rename_i hbelow habove
    rw [Option.some.injEq] at h
    rw [← h]
    split
    · exact habove
    · exact hbelow
  · rename_i hbelow habove
    rw [Option.some.injEq] at h
    rw [← h]
    exact hbelow
  · rename_i hbelow habove
    rw [Option.some.injEq] at h
    rw [← h]
    exact habove
  · cases h

/-- Where the search ends with no hit, it ends on a grid on which the value is not below one. -/
theorem search_proper {tie : Tie} {grids : Nat} {exponent : Int} (hm : m ≠ 0)
    (hlast : (⟨((ofBinary m e).value.shift (-(exponent - grids))).floor,
      exponent - grids⟩ : Decimal).Proper) :
    ((ofBinary m e).search tie grids exponent).Proper := by
  induction grids generalizing exponent with
  | zero =>
      simp only [Int.natCast_zero, Int.sub_zero] at hlast
      exact hlast
  | succ grids ih =>
      unfold search
      split
      · rename_i d hd
        exact .inl (coefficient_ne_zero hm (holds_of_onGrid hd))
      · apply ih
        have hgrid : exponent - 1 - (grids : Int) = exponent - ((grids + 1 : Nat) : Int) := by
          omega
        rw [hgrid]
        exact hlast

end Neighbourhood

theorem leadingExponent_of_pos {x : Fraction} (h : 0 < leadingExponent x) :
    leadingExponent x = ((digits x.floor).length : Int) - 1 ∧ x.floor ≠ 0 := by
  unfold leadingExponent at h ⊢
  dsimp only at h ⊢
  by_cases hle : x.denominator ≤ x.numerator
  · rw [if_pos hle] at h ⊢
    refine ⟨rfl, ?_⟩
    intro hzero
    rw [hzero, digits_zero] at h
    simp at h
  · rw [if_neg hle] at h
    split at h <;> omega

/-- Counted in units of a power of ten below its leading one, a number is not zero. -/
theorem floor_shift_ne_zero {x : Fraction} {k : Nat} (h : 0 < leadingExponent x - (k : Int)) :
    (x.shift (-(leadingExponent x - k))).floor ≠ 0 := by
  obtain ⟨hlead, hfloor⟩ := leadingExponent_of_pos (x := x) (by omega)
  have hpow := pow_length_digits_le hfloor
  obtain ⟨j, hj⟩ : ∃ j : Nat, -(leadingExponent x - (k : Int)) = Int.negSucc j :=
    ⟨(leadingExponent x - (k : Int)).toNat - 1, by omega⟩
  have hexponent : j + 1 ≤ (digits x.floor).length - 1 := by omega
  have hle : 10 ^ (j + 1) ≤ x.floor :=
    Nat.le_trans (Nat.pow_le_pow_right (by decide) hexponent) hpow
  rw [hj]
  show x.numerator / (x.denominator * 10 ^ (j + 1)) ≠ 0
  rw [← Nat.div_div_eq_div_mul]
  have hpos := Nat.div_pos hle (Nat.pow_pos (by decide))
  change 0 < x.numerator / x.denominator / 10 ^ (j + 1) at hpos
  omega

/-- The shortest decimal of a double is proper. -/
theorem shortest_proper (tie : Tie) (m : Nat) (e : Int) : (shortest tie m e).Proper := by
  unfold shortest
  split
  · exact .inr (Int.le_refl 0)
  · rename_i hm
    apply trimmed_proper
    apply Neighbourhood.search_proper hm
    by_cases hlast : leadingExponent (Neighbourhood.ofBinary m e).value - ((17 : Nat) : Int) ≤ 0
    · exact .inr hlast
    · exact .inl (floor_shift_ne_zero (by omega))

end Decimal

end TimeStepping
