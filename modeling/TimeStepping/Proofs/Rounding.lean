import Mathlib.Tactic.NormNum
import Mathlib.Tactic.Ring
import TimeStepping.Proofs.Doubles

/-!
# Rounded sums

Rounding to a double keeps the order: what is not below a double is not rounded to one below it,
and what is not above it is not rounded to one above it.  So a sum of two doubles, the second of
which is not negative, is never less than the first one, `not_add_lt`.
-/

namespace TimeStepping

open Float.Model
open Float.Model.UnpackedFloat

namespace Binary

/-! ## Numbers in units

Exponents are counted from the least one, so `m` and `e` stand for `m * 2 ^ (e - 1074)`, which is
`m * 2 ^ e` in units of the least positive double. -/

/-- The exponent that is counted as `e`. -/
def exponent (e : Nat) : Int :=
  (e : Int) - 1074

/-- The form in which the significand and the exponent of a double are kept: with the leading bit
set, or with the least exponent. -/
structure Normal (m e : Nat) : Prop where
  bound : m < 2 ^ 53
  leading : 2 ^ 52 ≤ m ∨ e = 0

/-- The order of numbers in normal form. -/
def AtMost (m e m' e' : Nat) : Prop :=
  e < e' ∨ e = e' ∧ m ≤ m'

/-- The exponent of a number in units, in normal form. -/
def target (units : Nat) : Nat :=
  units.log2 - 52

theorem log2_mul_two_pow {m : Nat} (h : m ≠ 0) (n : Nat) : (m * 2 ^ n).log2 = m.log2 + n := by
  induction n with
  | zero => rw [pow_zero, mul_one, Nat.add_zero]
  | succ n ih =>
      have hne : m * 2 ^ n ≠ 0 := Nat.mul_ne_zero h (Nat.two_pow_pos n).ne'
      have hdouble : m * 2 ^ (n + 1) = 2 * (m * 2 ^ n) := by ring
      rw [hdouble, Nat.log2_two_mul hne, ih, Nat.add_assoc]

theorem targetExponent_eq {m : Nat} (h : m ≠ 0) (e : Nat) :
    Format.binary64.targetExponent (totalExponent m (exponent e)) =
      exponent (target (m * 2 ^ e)) := by
  change max ((m.log2 : Int) + 1 + exponent e - 53) (-1074) = _
  unfold exponent target
  rw [log2_mul_two_pow h]
  omega

theorem target_mono {m n : Nat} (hm : m ≠ 0) (h : m ≤ n) : target m ≤ target n := by
  have hn : n ≠ 0 := by omega
  have hlog : m.log2 ≤ n.log2 := (Nat.le_log2 hn).mpr (Nat.le_trans (Nat.log2_self_le hm) h)
  unfold target
  omega

theorem Normal.target_eq {m e : Nat} (h : Normal m e) (hm : m ≠ 0) : target (m * 2 ^ e) = e := by
  have hlog : m.log2 < 53 := (Nat.log2_lt hm).mpr h.bound
  unfold target
  rw [log2_mul_two_pow hm]
  rcases h.leading with hleading | hleast
  · have hge : 52 ≤ m.log2 := (Nat.le_log2 hm).mpr hleading
    omega
  · omega

/-! ## Shifting to the right -/

/-- A significand nothing of which was dropped. -/
def lossless (m : Nat) : ExtendedMantissa :=
  ⟨m, false, false⟩

theorem shiftRight_succ (em : ExtendedMantissa) (n : Nat) :
    em >>> (n + 1) = (em >>> n).shiftRightOne :=
  rfl

theorem mantissa_shiftRight (em : ExtendedMantissa) (n : Nat) :
    (em >>> n).mantissa = em.mantissa / 2 ^ n := by
  induction n with
  | zero => exact (Nat.div_one _).symm
  | succ n ih =>
      rw [shiftRight_succ, pow_succ, ← Nat.div_div_eq_div_mul, ← ih]
      rfl

theorem shiftRight_mul (m n : Nat) : lossless (m * 2 ^ n) >>> n = lossless m := by
  induction n generalizing m with
  | zero =>
      rw [pow_zero, mul_one]
      rfl
  | succ n ih =>
      have heven : m * 2 ^ (n + 1) = 2 * m * 2 ^ n := by ring
      rw [shiftRight_succ, heven, ih]
      unfold lossless ExtendedMantissa.shiftRightOne
      simp

theorem roundedMantissa_bounds (em : ExtendedMantissa) :
    em.mantissa ≤ em.roundedMantissa ∧ em.roundedMantissa ≤ em.mantissa + 1 := by
  unfold ExtendedMantissa.roundedMantissa
  cases em.accuracy with
  | exact => simp [Accuracy.roundToNearestEven]
  | inexact order =>
      cases order with
      | lt => simp [Accuracy.roundToNearestEven]
      | eq =>
          simp only [Accuracy.roundToNearestEven]
          omega
      | gt => simp [Accuracy.roundToNearestEven]

/-! ## One rounding -/

/-- One of the two multiples of `2 ^ e` around a number, itself if it is one. -/
structure Near (units e r : Nat) : Prop where
  lower : units / 2 ^ e ≤ r
  upper : r ≤ units / 2 ^ e + 1
  dvd : 2 ^ e ∣ units → r = units / 2 ^ e

/-- A rounded significand with its exponent; the significand may have got one bit too long. -/
def carried (r e : Nat) : Nat × Nat :=
  if r = 2 ^ 53 then (2 ^ 52, e + 1) else (r, e)

/-- The double of the sign, the significand and the exponent. -/
def assembled (sign : Sign) (m e : Nat) : UnpackedFloat :=
  if h : m = 0 then .zero sign else .finite sign m (exponent e) (Nat.pos_of_ne_zero h)

theorem assembled_of_ne_zero (sign : Sign) {m : Nat} (h : m ≠ 0) (e : Nat) :
    assembled sign m e = .finite sign m (exponent e) (Nat.pos_of_ne_zero h) :=
  dif_neg h

theorem near_rounded {m e e' : Nat} (h : e ≤ e') :
    Near (m * 2 ^ e) e' (lossless m >>> (e' - e)).roundedMantissa := by
  obtain ⟨n, rfl⟩ := Nat.exists_eq_add_of_le h
  have hunits : m * 2 ^ e / 2 ^ (e + n) = m / 2 ^ n := by
    rw [pow_add, mul_comm (2 ^ e), Nat.mul_div_mul_right _ _ (Nat.two_pow_pos e)]
  have hmantissa : (lossless m >>> n).mantissa = m / 2 ^ n := mantissa_shiftRight (lossless m) n
  obtain ⟨hlower, hupper⟩ := roundedMantissa_bounds (lossless m >>> n)
  rw [hmantissa] at hlower hupper
  rw [Nat.add_sub_cancel_left]
  constructor
  · rw [hunits]
    exact hlower
  · rw [hunits]
    exact hupper
  · intro hdvd
    rw [pow_add, mul_comm (2 ^ e)] at hdvd
    obtain ⟨c, hc⟩ := Nat.dvd_of_mul_dvd_mul_right (Nat.two_pow_pos e) hdvd
    rw [hunits, hc, mul_comm (2 ^ n), shiftRight_mul, Nat.mul_div_cancel _ (Nat.two_pow_pos n)]
    rfl

theorem div_target_lt (units : Nat) : units / 2 ^ target units < 2 ^ 53 := by
  apply Nat.div_lt_of_lt_mul
  rw [← pow_add]
  have hexponent : units.log2 + 1 ≤ target units + 53 := by
    unfold target
    omega
  exact Nat.lt_of_lt_of_le Nat.lt_log2_self (Nat.pow_le_pow_right (by decide) hexponent)

theorem Near.le {units r : Nat} (h : Near units (target units) r) : r ≤ 2 ^ 53 := by
  have hlt := div_target_lt units
  have hupper := h.upper
  omega

theorem shiftToExponent_eq (m : Nat) {e e' : Nat} (h : e ≤ e') :
    shiftToExponent m (exponent e) .exact (exponent e') =
      (lossless m >>> (e' - e), exponent e') := by
  have hshift : (exponent e' - exponent e).toNat = e' - e := by
    unfold exponent
    omega
  unfold shiftToExponent
  dsimp only
  rw [hshift]
  have hexponent : exponent e + ((e' - e : Nat) : Int) = exponent e' := by
    unfold exponent
    omega
  rw [hexponent]
  rfl

theorem decreaseExponent_eq (m e e' : Nat) :
    decreaseExponent m (exponent e) (exponent e') =
      (m * 2 ^ (e - e'), exponent (min e e')) := by
  have hshift : (exponent e - exponent e').toNat = e - e' := by
    unfold exponent
    omega
  unfold decreaseExponent
  dsimp only
  rw [hshift, Nat.shiftLeft_eq]
  have hexponent : exponent e - ((e - e' : Nat) : Int) = exponent (min e e') := by
    unfold exponent
    omega
  rw [hexponent]

/-- A significand that got a bit too long is shifted once more. -/
theorem shiftToTargetExponent_carried {r : Nat} (h : r ≤ 2 ^ 53) (e : Nat) :
    shiftToTargetExponent Format.binary64 r (exponent e) .exact =
      (lossless (carried r e).1, exponent (carried r e).2) := by
  have hshift : ∀ n : Nat,
      (Format.binary64.targetExponent (totalExponent r (exponent e)) - exponent e).toNat = n →
      shiftToTargetExponent Format.binary64 r (exponent e) .exact =
        (lossless r >>> n, exponent (e + n)) := by
    intro n hn
    change (lossless r >>> (_ : Int).toNat, exponent e + ((_ : Int).toNat : Int)) = _
    rw [hn]
    unfold exponent
    rw [Nat.cast_add, sub_add_eq_add_sub]
  unfold carried
  by_cases hcarry : r = 2 ^ 53
  · have htarget : (Format.binary64.targetExponent (totalExponent r (exponent e)) -
        exponent e).toNat = 1 := by
      have hpow : target (2 ^ 53 * 2 ^ e) = e + 1 := by
        unfold target
        rw [← pow_add, Nat.log2_two_pow]
        omega
      rw [targetExponent_eq (by omega), hcarry, hpow]
      unfold exponent
      omega
    rw [hshift 1 htarget, if_pos hcarry, hcarry]
    exact congrArg (·, _) (shiftRight_mul (2 ^ 52) 1)
  · have hlog : r.log2 ≤ 52 := by
      by_cases hzero : r = 0
      · rw [hzero, Nat.log2_zero]
        omega
      · have hlt := (Nat.log2_lt hzero).mpr (Nat.lt_of_le_of_ne h hcarry)
        omega
    have htarget : (Format.binary64.targetExponent (totalExponent r (exponent e)) -
        exponent e).toNat = 0 := by
      change (max ((r.log2 : Int) + 1 + exponent e - 53) (-1074) - exponent e).toNat = 0
      unfold exponent
      omega
    rw [hshift 0 htarget, if_neg hcarry]
    rfl

theorem roundWithAccuracy_eq (sign : Sign) {m e : Nat} (hm : m ≠ 0) (h : e ≤ target (m * 2 ^ e)) :
    ∃ r, Near (m * 2 ^ e) (target (m * 2 ^ e)) r ∧
      roundWithAccuracy Format.binary64 sign m (exponent e) .exact =
        assembled sign (carried r (target (m * 2 ^ e))).1 (carried r (target (m * 2 ^ e))).2 := by
  have hnear := near_rounded (m := m) h
  refine ⟨_, hnear, ?_⟩
  have hfirst : shiftToTargetExponent Format.binary64 m (exponent e) .exact =
      (lossless m >>> (target (m * 2 ^ e) - e), exponent (target (m * 2 ^ e))) := by
    unfold shiftToTargetExponent
    rw [targetExponent_eq hm, shiftToExponent_eq m h]
  unfold roundWithAccuracy
  rw [hfirst]
  dsimp only
  rw [shiftToTargetExponent_carried hnear.le]
  rfl

/-- A number is rounded to a neighbour on the grid of its own exponent. -/
theorem round_eq (sign : Sign) {m : Nat} (hm : m ≠ 0) (e : Nat) :
    ∃ r, Near (m * 2 ^ e) (target (m * 2 ^ e)) r ∧
      UnpackedFloat.round Format.binary64 sign m (exponent e) =
        assembled sign (carried r (target (m * 2 ^ e))).1 (carried r (target (m * 2 ^ e))).2 := by
  have hne : m * 2 ^ (e - target (m * 2 ^ e)) ≠ 0 :=
    Nat.mul_ne_zero hm (Nat.two_pow_pos _).ne'
  have hunits : m * 2 ^ (e - target (m * 2 ^ e)) * 2 ^ min e (target (m * 2 ^ e)) =
      m * 2 ^ e := by
    rw [mul_assoc, ← pow_add]
    congr 2
    omega
  have hround : UnpackedFloat.round Format.binary64 sign m (exponent e) =
      roundWithAccuracy Format.binary64 sign (m * 2 ^ (e - target (m * 2 ^ e)))
        (exponent (min e (target (m * 2 ^ e)))) .exact := by
    unfold UnpackedFloat.round
    dsimp only
    rw [targetExponent_eq hm, decreaseExponent_eq]
  have h := roundWithAccuracy_eq sign hne (e := min e (target (m * 2 ^ e)))
    (by rw [hunits]; exact Nat.min_le_right _ _)
  rw [hunits] at h
  rw [hround]
  exact h

/-! ## Rounding keeps the order -/

section Order

variable {units r c k : Nat}

theorem carried_normal (hunits : units ≠ 0) (h : Near units (target units) r) :
    Normal (carried r (target units)).1 (carried r (target units)).2 := by
  unfold carried
  split
  · exact ⟨by norm_num, .inl (Nat.le_refl _)⟩
  · rename_i hcarry
    refine ⟨Nat.lt_of_le_of_ne h.le hcarry, ?_⟩
    by_cases hleast : target units = 0
    · exact .inr hleast
    · left
      have hlog : 52 + target units = units.log2 := by
        unfold target at hleast ⊢
        omega
      have hpow : 2 ^ 52 * 2 ^ target units ≤ units := by
        rw [← pow_add, hlog]
        exact Nat.log2_self_le hunits
      exact Nat.le_trans ((Nat.le_div_iff_mul_le (Nat.two_pow_pos _)).mpr hpow) h.lower

/-- A double that is not above a number is not above what it is rounded to. -/
theorem atMost_carried (h : Near units (target units) r) (hc : Normal c k) (hne : c ≠ 0)
    (hle : c * 2 ^ k ≤ units) :
    AtMost c k (carried r (target units)).1 (carried r (target units)).2 := by
  have hexponent := target_mono (Nat.mul_ne_zero hne (Nat.two_pow_pos k).ne') hle
  rw [hc.target_eq hne] at hexponent
  unfold carried
  split
  · exact .inl (Nat.lt_succ_of_le hexponent)
  · rcases Nat.lt_or_eq_of_le hexponent with hlt | heq
    · exact .inl hlt
    · right
      refine ⟨heq, Nat.le_trans ?_ h.lower⟩
      rw [← heq]
      exact (Nat.le_div_iff_mul_le (Nat.two_pow_pos k)).mpr hle

/-- A double that is not below a number is not below what it is rounded to. -/
theorem carried_atMost (hunits : units ≠ 0) (h : Near units (target units) r) (hc : Normal c k)
    (hle : units ≤ c * 2 ^ k) :
    AtMost (carried r (target units)).1 (carried r (target units)).2 c k := by
  have hne : c ≠ 0 := by
    intro hzero
    rw [hzero, zero_mul] at hle
    omega
  have hexponent := target_mono hunits hle
  rw [hc.target_eq hne] at hexponent
  rcases Nat.lt_or_eq_of_le hexponent with hlt | heq
  · -- The leading bit of `c` is set, so that not even a carry gets past it.
    have hleading : 2 ^ 52 ≤ c := hc.leading.resolve_right (by omega)
    unfold carried
    split
    · rcases Nat.lt_or_eq_of_le hlt with hlt | heq
      · exact .inl hlt
      · exact .inr ⟨heq, hleading⟩
    · exact .inl hlt
  · have hr : r ≤ c := by
      rw [heq] at h
      rcases Nat.lt_or_eq_of_le hle with hbelow | hexact
      · have hquotient : units / 2 ^ k < c := Nat.div_lt_of_lt_mul (by rwa [mul_comm])
        exact Nat.le_trans h.upper hquotient
      · rw [h.dvd ⟨c, by rw [hexact, mul_comm]⟩, hexact, Nat.mul_div_cancel _ (Nat.two_pow_pos k)]
    have hbound := hc.bound
    unfold carried
    rw [if_neg (by omega)]
    exact .inr ⟨heq, hr⟩

end Order

/-- What a number may be rounded to: a double with no other one between them. -/
structure Rounded (units m e : Nat) : Prop where
  normal : Normal m e
  above {c k : Nat} (hc : Normal c k) (hne : c ≠ 0) (hle : c * 2 ^ k ≤ units) : AtMost c k m e
  below {c k : Nat} (hc : Normal c k) (hle : units ≤ c * 2 ^ k) : AtMost m e c k

theorem exists_rounded (sign : Sign) {n : Nat} (hn : n ≠ 0) (e : Nat) :
    ∃ m' e', Rounded (n * 2 ^ e) m' e' ∧
      UnpackedFloat.round Format.binary64 sign n (exponent e) = assembled sign m' e' := by
  obtain ⟨r, hnear, hround⟩ := round_eq sign hn e
  have hunits := Nat.mul_ne_zero hn (Nat.two_pow_pos e).ne'
  exact ⟨_, _, ⟨carried_normal hunits hnear, atMost_carried hnear, carried_atMost hunits hnear⟩,
    hround⟩

/-! ## Doubles in normal form -/

theorem unpackSign_packComponents (sign : Sign) (exponent : BitVec 11) (mantissa : BitVec 52) :
    unpackSign (packComponents Format.binary64 sign exponent mantissa) = sign.toBitVec := by
  ext i hi
  obtain rfl : i = 0 := by omega
  unfold unpackSign packComponents
  rw [BitVec.getElem_cast, BitVec.getElem_extract]
  rw [BitVec.getLsbD_append, if_neg (by decide), BitVec.getLsbD_append, if_neg (by decide)]
  rfl

theorem ofBitVec_toBitVec (sign : Sign) : Sign.ofBitVec sign.toBitVec = sign := by
  cases sign with
  | negative => rfl
  | positive => rfl

theorem toNat_leading (mantissa : BitVec 52) :
    (1#1 ++ mantissa).toNat = 2 ^ 52 + mantissa.toNat := by
  have hor := Nat.two_pow_add_eq_or_of_lt mantissa.isLt 1
  rw [mul_one] at hor
  rw [hor, BitVec.toNat_append]
  rfl

theorem finite_eq_assembled (sign : Sign) {m e : Nat} {exponent' : Int} (hm : 0 < m)
    (he : exponent' = exponent e) :
    UnpackedFloat.finite sign m exponent' hm = assembled sign m e := by
  subst he
  rw [assembled_of_ne_zero sign hm.ne']

/-- What the bits of a double stand for. -/
theorem unpack_eq (b : BitVec Format.binary64.numBits) :
    UnpackedFloat.unpack Format.binary64 b =
      if unpackExponent b = -1#11 then
        if unpackMantissa b = 0#52 then .infinity (.ofBitVec (unpackSign b)) else .notANumber
      else if unpackExponent b = 0#11 then
        assembled (.ofBitVec (unpackSign b)) (unpackMantissa b).toNat 0
      else
        assembled (.ofBitVec (unpackSign b)) (2 ^ 52 + (unpackMantissa b).toNat)
          ((unpackExponent b).toNat - 1) := by
  unfold UnpackedFloat.unpack
  dsimp only
  by_cases hset : unpackExponent b = -1#11
  · rw [if_pos hset, if_pos hset]
  · rw [if_neg hset, if_neg hset]
    by_cases hclear : unpackExponent b = 0#11
    · rw [if_pos hclear, if_pos hclear]
      by_cases hempty : unpackMantissa b = 0#52
      · rw [dif_pos hempty, hempty]
        rfl
      · rw [dif_neg hempty]
        apply finite_eq_assembled
        rw [hclear]
        rfl
    · rw [if_neg hclear, if_neg hclear, ← toNat_leading]
      apply finite_eq_assembled
      have hpositive : (unpackExponent b).toNat ≠ 0 :=
        fun hzero => hclear (BitVec.eq_of_toNat_eq hzero)
      change ((unpackExponent b).toNat : Int) - 1075 = _
      unfold exponent
      omega

theorem exists_normal_parts {x : Float} (h : x.isFinite = true) :
    ∃ sign m e, parts x = assembled sign m e ∧ Normal m e ∧ e < 2046 := by
  have hunpack : parts x = _ := unpack_eq x.toModel.toBits.toBitVec
  change (parts x).isFinite = true at h
  generalize x.toModel.toBits.toBitVec = b at hunpack
  have hmantissa : (@unpackMantissa Format.binary64 b).toNat < 2 ^ 52 := BitVec.isLt _
  have hexponent : (@unpackExponent Format.binary64 b).toNat < 2 ^ 11 := BitVec.isLt _
  rw [hunpack] at h ⊢
  by_cases hset : @unpackExponent Format.binary64 b = -1#11
  · rw [if_pos hset] at h
    split at h
    · cases h
    · cases h
  · rw [if_neg hset]
    split
    · exact ⟨_, _, 0, rfl, ⟨by omega, .inr rfl⟩, by decide⟩
    · have hbiased : (@unpackExponent Format.binary64 b).toNat ≠ 2047 :=
        fun hall => hset (BitVec.eq_of_toNat_eq hall)
      exact ⟨_, _, _, rfl, ⟨by omega, .inl (by omega)⟩, by omega⟩

theorem unpack_packComponents (sign : Sign) (e : BitVec 11) (m : BitVec 52) :
    UnpackedFloat.unpack Format.binary64 (packComponents Format.binary64 sign e m) =
      if e = -1#11 then if m = 0#52 then .infinity sign else .notANumber
      else if e = 0#11 then assembled sign m.toNat 0
      else assembled sign (2 ^ 52 + m.toNat) (e.toNat - 1) := by
  rw [unpack_eq, unpackExponent_packComponents, unpackMantissa_packComponents,
    unpackSign_packComponents, ofBitVec_toBitVec]

theorem pack_assembled (sign : Sign) {m : Nat} (hm : m ≠ 0) (e : Nat) :
    UnpackedFloat.pack Format.binary64 (assembled sign m e) =
      if 2046 ≤ e then packComponents Format.binary64 sign (-1#11) 0#52
      else if m.log2 = 52 then
        packComponents Format.binary64 sign (BitVec.ofNat 11 (e + 1)) (BitVec.ofNat 52 m)
      else packComponents Format.binary64 sign 0#11 (BitVec.ofNat 52 m) := by
  have hbiased : (exponent e + Format.binary64.exponentBias +
      Format.binary64.mantissaBitsWithoutImplicit).toNat = e + 1 := by
    change ((e : Int) - 1074 + 1023 + 52).toNat = e + 1
    omega
  rw [assembled_of_ne_zero sign hm]
  unfold UnpackedFloat.pack
  dsimp only
  rw [hbiased]
  by_cases hlarge : 2046 ≤ e
  · have hoverflow : 2 ^ Format.binary64.exponentBits ≤ e + 1 + 1 := by
      change 2048 ≤ e + 1 + 1
      omega
    rw [if_pos hlarge, if_pos hoverflow]
    rfl
  · have hfits : ¬2 ^ Format.binary64.exponentBits ≤ e + 1 + 1 := by
      change ¬2048 ≤ e + 1 + 1
      omega
    rw [if_neg hlarge, if_neg hfits]
    have hbits : m.log2 + 1 = Format.binary64.mantissaBits ↔ m.log2 = 52 := by
      change m.log2 + 1 = 53 ↔ _
      omega
    simp only [hbits]

/-- The exponent of a number is stored as none that is set apart. -/
theorem biased_exponent {e : Nat} (h : e < 2046) :
    (BitVec.ofNat 11 (e + 1)).toNat = e + 1 ∧ BitVec.ofNat 11 (e + 1) ≠ -1#11 ∧
      BitVec.ofNat 11 (e + 1) ≠ 0#11 := by
  have hexponent : (BitVec.ofNat 11 (e + 1)).toNat = e + 1 := by
    rw [BitVec.toNat_ofNat]
    omega
  refine ⟨hexponent, fun hset => ?_, fun hclear => ?_⟩
  · rw [hset] at hexponent
    change 2047 = e + 1 at hexponent
    omega
  · rw [hclear] at hexponent
    change 0 = e + 1 at hexponent
    omega

/-- A result as it is stored. -/
def stored (x : UnpackedFloat) : UnpackedFloat :=
  UnpackedFloat.unpack Format.binary64 (UnpackedFloat.pack Format.binary64 x)

/-- A number in normal form fits into a double, or overflows. -/
theorem stored_assembled (sign : Sign) {m e : Nat} (h : Normal m e) :
    stored (assembled sign m e) =
      if 2046 ≤ e then .infinity sign else assembled sign m e := by
  have hbound := h.bound
  unfold stored
  by_cases hm : m = 0
  · have he : e = 0 := h.leading.resolve_left (by omega)
    rw [hm, he]
    change UnpackedFloat.unpack _ (packComponents Format.binary64 sign 0#11 0#52) = .zero sign
    rw [unpack_packComponents]
    rfl
  · rw [pack_assembled sign hm]
    by_cases hlarge : 2046 ≤ e
    · rw [if_pos hlarge, if_pos hlarge, unpack_packComponents, if_pos rfl, if_pos rfl]
    · rw [if_neg hlarge, if_neg hlarge]
      by_cases hleading : m.log2 = 52
      · have hmantissa : 2 ^ 52 ≤ m := (Nat.le_log2 hm).mp (by omega)
        obtain ⟨hexponent, hset, hclear⟩ := biased_exponent (Nat.lt_of_not_le hlarge)
        have hrest : 2 ^ 52 + (BitVec.ofNat 52 m).toNat = m := by
          rw [BitVec.toNat_ofNat]
          omega
        rw [if_pos hleading, unpack_packComponents, if_neg hset, if_neg hclear, hexponent, hrest]
        rfl
      · have hlog : m.log2 < 53 := (Nat.log2_lt hm).mpr hbound
        have hmantissa : m < 2 ^ 52 := (Nat.log2_lt hm).mp (by omega)
        have he : e = 0 := h.leading.resolve_left (by omega)
        have hrest : (BitVec.ofNat 52 m).toNat = m := by
          rw [BitVec.toNat_ofNat]
          omega
        rw [if_neg hleading, unpack_packComponents, if_neg (by decide), if_pos rfl, hrest, he]

theorem parts_add (x y : Float) :
    parts (x + y) = stored (UnpackedFloat.add Format.binary64 (parts x) (parts y)) :=
  rfl

/-! ## Comparing -/

theorem AtMost.not_gt {m e m' e' : Nat} (h : AtMost m e m' e') :
    (compare (exponent e) (exponent e')).then (compare m m') ≠ .gt := by
  rcases h with hlt | ⟨heq, hle⟩
  · have hexponent : exponent e < exponent e' := by
      unfold exponent
      omega
    rw [compare_lt_iff_lt.mpr hexponent]
    exact fun h => by cases h
  · rw [heq, compare_eq_iff_eq.mpr rfl]
    exact compare_le_iff_le.mpr hle

theorem AtMost.not_lt {m e m' e' : Nat} (h : AtMost m e m' e') :
    (compare (exponent e') (exponent e)).then (compare m' m) ≠ .lt := by
  rcases h with hlt | ⟨heq, hle⟩
  · have hexponent : exponent e < exponent e' := by
      unfold exponent
      omega
    rw [compare_gt_iff_gt.mpr hexponent]
    exact fun h => by cases h
  · rw [heq, compare_eq_iff_eq.mpr rfl]
    exact compare_ge_iff_ge.mpr hle

/-- Not below a double: what comes out of rounding and packing. -/
def NotBelow (found : UnpackedFloat) (x : UnpackedFloat) : Prop :=
  UnpackedFloat.compare found x ≠ some .lt

section NotBelow

variable {m e m' e' : Nat}

theorem infinity_notBelow (sign : Sign) (m e : Nat) :
    NotBelow (.infinity .positive) (assembled sign m e) := by
  by_cases hm : m = 0
  · rw [hm]
    exact fun h => by cases h
  · rw [assembled_of_ne_zero sign hm]
    exact fun h => by cases h

theorem positive_notBelow_negative (m e m' e' : Nat) :
    NotBelow (assembled .positive m e) (assembled .negative m' e') := by
  by_cases hm : m = 0
  · rw [hm]
    by_cases hm' : m' = 0
    · rw [hm']
      exact fun h => by cases h
    · rw [assembled_of_ne_zero _ hm']
      exact fun h => by cases h
  · rw [assembled_of_ne_zero _ hm]
    by_cases hm' : m' = 0
    · rw [hm']
      exact fun h => by cases h
    · rw [assembled_of_ne_zero _ hm']
      exact fun h => by cases h

theorem positive_notBelow (h : AtMost m' e' m e) (hm : m ≠ 0) :
    NotBelow (assembled .positive m e) (assembled .positive m' e') := by
  rw [assembled_of_ne_zero _ hm]
  by_cases hm' : m' = 0
  · rw [hm']
    exact fun h => by cases h
  · rw [assembled_of_ne_zero _ hm']
    exact fun hlt => h.not_lt (Option.some.inj hlt)

theorem negative_notBelow (h : AtMost m e m' e') (hm' : m' ≠ 0) :
    NotBelow (assembled .negative m e) (assembled .negative m' e') := by
  rw [assembled_of_ne_zero _ hm']
  by_cases hm : m = 0
  · rw [hm]
    exact fun h => by cases h
  · rw [assembled_of_ne_zero _ hm]
    intro hlt
    have hswap := Option.some.inj hlt
    rw [Ordering.swap_eq_lt] at hswap
    exact h.not_gt hswap

end NotBelow

/-! ## Sums -/

theorem add_assembled (sign sign' : Sign) {m m' : Nat} (hm : m ≠ 0) (hm' : m' ≠ 0) (e e' : Nat) :
    UnpackedFloat.add Format.binary64 (assembled sign m e) (assembled sign' m' e') =
      UnpackedFloat.normalize Format.binary64
        (sign.apply ((m * 2 ^ (e - min e e') : Nat) : Int) +
          sign'.apply ((m' * 2 ^ (e' - min e e') : Nat) : Int))
        (exponent (min e e')) .positive := by
  rw [assembled_of_ne_zero _ hm, assembled_of_ne_zero _ hm']
  have hmin : min (exponent e) (exponent e') = exponent (min e e') := by
    unfold exponent
    omega
  unfold UnpackedFloat.add
  dsimp only
  rw [hmin, decreaseExponent_eq, decreaseExponent_eq]

theorem normalize_natCast {n : Nat} (h : n ≠ 0) (e : Int) (sign : Sign) :
    UnpackedFloat.normalize Format.binary64 (n : Int) e sign =
      UnpackedFloat.round Format.binary64 .positive n e := by
  unfold UnpackedFloat.normalize
  rw [compare_gt_iff_gt.mpr (show (0 : Int) < n by omega)]
  rfl

theorem normalize_neg_natCast {n : Nat} (h : n ≠ 0) (e : Int) (sign : Sign) :
    UnpackedFloat.normalize Format.binary64 (-(n : Int)) e sign =
      UnpackedFloat.round Format.binary64 .negative n e := by
  unfold UnpackedFloat.normalize
  rw [compare_lt_iff_lt.mpr (show -(n : Int) < 0 by omega), neg_neg]
  rfl

section Sums

variable {m e m' e' : Nat}

theorem AtMost.ne_zero (h : AtMost m e m' e') (hm : m ≠ 0) (h' : Normal m' e') : m' ≠ 0 := by
  intro hzero
  rw [hzero] at h h'
  have he' : e' = 0 := h'.leading.resolve_left (by norm_num)
  rcases h with hlt | ⟨-, hle⟩
  · omega
  · omega

theorem stored_positive_notBelow (h : Normal m e) (hm : m ≠ 0) (hle : AtMost m' e' m e) :
    NotBelow (stored (assembled .positive m e)) (assembled .positive m' e') := by
  rw [stored_assembled _ h]
  split
  · exact infinity_notBelow _ _ _
  · exact positive_notBelow hle hm

theorem stored_positive_notBelow_negative (h : Normal m e) (m' e' : Nat) :
    NotBelow (stored (assembled .positive m e)) (assembled .negative m' e') := by
  rw [stored_assembled _ h]
  split
  · exact infinity_notBelow _ _ _
  · exact positive_notBelow_negative _ _ _ _

theorem stored_negative_notBelow (h : Normal m e) (hm' : m' ≠ 0) (he' : e' < 2046)
    (hle : AtMost m e m' e') :
    NotBelow (stored (assembled .negative m e)) (assembled .negative m' e') := by
  have he : ¬2046 ≤ e := by
    rcases hle with hlt | ⟨heq, -⟩
    · omega
    · omega
  rw [stored_assembled _ h, if_neg he]
  exact negative_notBelow hle hm'

theorem self_notBelow (sign : Sign) (hm : m ≠ 0) (e : Nat) :
    NotBelow (assembled sign m e) (assembled sign m e) := by
  have hself : AtMost m e m e := .inr ⟨rfl, Nat.le_refl m⟩
  cases sign with
  | negative => exact negative_notBelow hself hm
  | positive => exact positive_notBelow hself hm

theorem mul_two_pow_sub (m : Nat) {e s : Nat} (h : s ≤ e) :
    m * 2 ^ (e - s) * 2 ^ s = m * 2 ^ e := by
  rw [mul_assoc, ← pow_add, Nat.sub_add_cancel h]

/-- Two positive numbers: the sum is not below the first before rounding, and so not after it. -/
theorem add_positive_notBelow (hx : Normal m e) (hm : m ≠ 0) (hm' : m' ≠ 0) :
    NotBelow (stored (UnpackedFloat.add Format.binary64 (assembled .positive m e)
      (assembled .positive m' e'))) (assembled .positive m e) := by
  rw [add_assembled _ _ hm hm']
  change NotBelow (stored (UnpackedFloat.normalize _
    (((m * 2 ^ (e - min e e') : Nat) : Int) + ((m' * 2 ^ (e' - min e e') : Nat) : Int)) _ _)) _
  have hunits := mul_two_pow_sub m (Nat.min_le_left e e')
  have hpos : m * 2 ^ (e - min e e') ≠ 0 := Nat.mul_ne_zero hm (Nat.two_pow_pos _).ne'
  generalize m * 2 ^ (e - min e e') = a at hunits hpos
  generalize m' * 2 ^ (e' - min e e') = b
  have hne : a + b ≠ 0 := by omega
  have hle : m * 2 ^ e ≤ (a + b) * 2 ^ min e e' := by
    rw [← hunits]
    exact Nat.mul_le_mul_right _ (Nat.le_add_right a b)
  obtain ⟨m'', e'', hrounded, hround⟩ := exists_rounded .positive hne (min e e')
  have hatMost := hrounded.above hx hm hle
  rw [← Nat.cast_add, normalize_natCast hne, hround]
  exact stored_positive_notBelow hrounded.normal (hatMost.ne_zero hm hrounded.normal) hatMost

/-- A negative and a positive number. -/
theorem add_negative_notBelow (hx : Normal m e) (he : e < 2046) (hm : m ≠ 0) (hm' : m' ≠ 0) :
    NotBelow (stored (UnpackedFloat.add Format.binary64 (assembled .negative m e)
      (assembled .positive m' e'))) (assembled .negative m e) := by
  rw [add_assembled _ _ hm hm']
  change NotBelow (stored (UnpackedFloat.normalize _
    (-((m * 2 ^ (e - min e e') : Nat) : Int) + ((m' * 2 ^ (e' - min e e') : Nat) : Int)) _ _)) _
  have hunits := mul_two_pow_sub m (Nat.min_le_left e e')
  generalize m * 2 ^ (e - min e e') = a at hunits
  generalize m' * 2 ^ (e' - min e e') = b
  rcases Nat.lt_trichotomy b a with hlt | heq | hgt
  · have hne : a - b ≠ 0 := by omega
    have hsum : -(a : Int) + (b : Int) = -((a - b : Nat) : Int) := by omega
    have hle : (a - b) * 2 ^ min e e' ≤ m * 2 ^ e := by
      rw [← hunits]
      exact Nat.mul_le_mul_right _ (Nat.sub_le a b)
    obtain ⟨m'', e'', hrounded, hround⟩ := exists_rounded .negative hne (min e e')
    rw [hsum, normalize_neg_natCast hne, hround]
    exact stored_negative_notBelow hrounded.normal hm he (hrounded.below hx hle)
  · have hsum : -(a : Int) + (b : Int) = 0 := by omega
    have hzero : Normal 0 0 := ⟨by decide, .inr rfl⟩
    rw [hsum]
    exact stored_positive_notBelow_negative hzero m e
  · have hne : b - a ≠ 0 := by omega
    have hsum : -(a : Int) + (b : Int) = ((b - a : Nat) : Int) := by omega
    obtain ⟨m'', e'', hrounded, hround⟩ := exists_rounded .positive hne (min e e')
    rw [hsum, normalize_natCast hne, hround]
    exact stored_positive_notBelow_negative hrounded.normal m e

theorem stored_notBelow_zero (sign sign' : Sign) (e' : Nat) (h : Normal m e)
    (hsign : m = 0 ∨ sign = .positive) :
    NotBelow (stored (assembled sign m e)) (assembled sign' 0 e') := by
  rw [stored_assembled _ h]
  by_cases hm : m = 0
  · have he : e = 0 := h.leading.resolve_left (by omega)
    rw [hm, he]
    exact fun h => by cases h
  · rw [hsign.resolve_left hm, assembled_of_ne_zero _ hm]
    by_cases hlarge : 2046 ≤ e
    · rw [if_pos hlarge]
      exact fun h => by cases h
    · rw [if_neg hlarge]
      exact fun h => by cases h

/-- Two zeros have a sum of some sign. -/
theorem exists_add_zero (sign sign' : Sign) (e e' : Nat) :
    ∃ sign'', UnpackedFloat.add Format.binary64 (assembled sign 0 e) (assembled sign' 0 e') =
      assembled sign'' 0 0 := by
  cases sign with
  | negative =>
      cases sign' with
      | negative => exact ⟨.negative, rfl⟩
      | positive => exact ⟨.positive, rfl⟩
  | positive =>
      cases sign' with
      | negative => exact ⟨.positive, rfl⟩
      | positive => exact ⟨.positive, rfl⟩

theorem add_notBelow {sign sign' : Sign} (hx : Normal m e) (he : e < 2046)
    (hd : Normal m' e') (hsign : m' = 0 ∨ sign' = .positive) :
    NotBelow (stored (UnpackedFloat.add Format.binary64 (assembled sign m e)
      (assembled sign' m' e'))) (assembled sign m e) := by
  by_cases hm : m = 0
  · rw [hm]
    by_cases hm' : m' = 0
    · obtain ⟨sign'', hsum⟩ := exists_add_zero sign sign' e e'
      rw [hm', hsum]
      exact stored_notBelow_zero _ _ _ ⟨by decide, .inr rfl⟩ (.inl rfl)
    · have hsum : UnpackedFloat.add Format.binary64 (assembled sign 0 e) (assembled sign' m' e') =
          assembled sign' m' e' := by
        rw [assembled_of_ne_zero _ hm']
        rfl
      rw [hsum]
      exact stored_notBelow_zero _ _ _ hd hsign
  · by_cases hm' : m' = 0
    · have hsum : UnpackedFloat.add Format.binary64 (assembled sign m e) (assembled sign' m' e') =
          assembled sign m e := by
        rw [hm', assembled_of_ne_zero _ hm]
        rfl
      rw [hsum, stored_assembled _ hx, if_neg (by omega)]
      exact self_notBelow sign hm e
    · rw [hsign.resolve_left hm']
      cases sign with
      | positive => exact add_positive_notBelow hx hm hm'
      | negative => exact add_negative_notBelow hx he hm hm'

end Sums

end Binary

/-- Adding a number that is not negative does not lead below a number. -/
theorem not_add_lt {x d : Float} (hx : x.isFinite = true) (hd : d.isFinite = true)
    (hnonneg : ¬d < 0) : ¬x + d < x := by
  obtain ⟨sign, m, e, hpartsX, hnormal, he⟩ := Binary.exists_normal_parts hx
  obtain ⟨sign', m', e', hpartsD, hnormal', -⟩ := Binary.exists_normal_parts hd
  have hsign : m' = 0 ∨ sign' = .positive := by
    by_cases hm' : m' = 0
    · exact .inl hm'
    · cases sign' with
      | positive => exact .inr rfl
      | negative =>
          refine absurd ?_ hnonneg
          rw [lt_iff, hpartsD, Binary.assembled_of_ne_zero _ hm']
          rfl
  rw [lt_iff, Binary.parts_add, hpartsX, hpartsD]
  exact Binary.add_notBelow hnormal he hnormal' hsign

end TimeStepping
