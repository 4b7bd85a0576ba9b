import Mathlib.Tactic.ByContra
import TimeStepping.Json.Number
import TimeStepping.Scalar

/-!
# Doubles

What the text of a double and the checks of a run need to know about it: the numbers that are
written are the finite ones, and a positive number that is at most a finite one is finite.
-/

namespace TimeStepping

open Float.Model

namespace Binary

/-! ## Finite doubles -/

/-- The bits of the exponent, all of which are set in what is not finite. -/
def biased (x : Float) : Nat :=
  x.toBits.toNat / impliedBit % 2048

theorem toNat_unpackExponent (x : Float) :
    (@UnpackedFloat.unpackExponent Format.binary64 x.toModel.toBits.toBitVec).toNat =
      biased x := by
  have hbits : x.toBits.toNat = x.toModel.toBits.toBitVec.toNat := rfl
  unfold UnpackedFloat.unpackExponent biased impliedBit
  simp only [BitVec.toNat_cast, BitVec.extractLsb_toNat]
  simp [hbits, Nat.shiftRight_eq_div_pow]

theorem isFinite_iff (x : Float) : x.isFinite = true ↔ biased x ≠ 2047 := by
  have hbits := toNat_unpackExponent x
  change (UnpackedFloat.unpack Format.binary64 x.toModel.toBits.toBitVec).isFinite = true ↔ _
  rw [← hbits]
  generalize x.toModel.toBits.toBitVec = b
  unfold UnpackedFloat.unpack
  dsimp only
  by_cases hset : @UnpackedFloat.unpackExponent Format.binary64 b = -1#11
  · rw [if_pos hset, hset]
    split
    · exact iff_of_false Bool.false_ne_true fun h => h rfl
    · exact iff_of_false Bool.false_ne_true fun h => h rfl
  · rw [if_neg hset]
    refine iff_of_true ?_ fun hall => hset (BitVec.eq_of_toNat_eq hall)
    by_cases hclear : @UnpackedFloat.unpackExponent Format.binary64 b = 0#11
    · rw [if_pos hclear]
      by_cases hempty : @UnpackedFloat.unpackMantissa Format.binary64 b = 0#52
      · rw [dif_pos hempty]
        rfl
      · rw [dif_neg hempty]
        rfl
    · rw [if_neg hclear]
      rfl

theorem ofFloat_of_not_finite {x : Float} (h : x.isFinite = false) :
    ofFloat x = .nan ∨ ∃ negative, ofFloat x = .infinite negative := by
  have hbits : biased x = 2047 := by
    by_contra hne
    rw [(isFinite_iff x).mpr hne] at h
    cases h
  unfold biased at hbits
  unfold ofFloat
  dsimp only
  rw [if_pos hbits]
  split
  · exact .inr ⟨_, rfl⟩
  · exact .inl rfl

theorem ofFloat_of_finite {x : Float} (h : x.isFinite = true) :
    ∃ negative m e, ofFloat x = .finite negative m e := by
  have hbits := (isFinite_iff x).mp h
  unfold biased at hbits
  unfold ofFloat
  dsimp only
  rw [if_neg hbits]
  split
  · exact ⟨_, _, _, rfl⟩
  · exact ⟨_, _, _, rfl⟩

end Binary

/-! ## Written doubles -/

theorem write_of_finite {x : Float} {negative : Bool} {m : Nat} {e : Int}
    (h : Binary.ofFloat x = .finite negative m e) :
    JsonNumber.write x = some (Json.Number.spell Json.Number.layout negative
      (Decimal.shortest .even m e)) := by
  simp only [JsonNumber.write, h]

theorem write_of_not_finite {x : Float} (h : x.isFinite = false) : JsonNumber.write x = none := by
  rcases Binary.ofFloat_of_not_finite h with hnan | ⟨negative, hinfinite⟩
  · simp only [JsonNumber.write, hnan]
  · simp only [JsonNumber.write, hinfinite]

/-! ## Comparisons -/

/-- The double, taken apart. -/
def parts (x : Float) : UnpackedFloat :=
  x.toModel.unpack

theorem lt_iff {x y : Float} : x < y ↔ (parts x).compare (parts y) = some .lt := by
  change decide (((parts x).compare (parts y) == some .lt) = true) = true ↔ _
  rw [decide_eq_true_eq, beq_iff_eq]

theorem le_iff {x y : Float} :
    x ≤ y ↔ ((parts x).compare (parts y)).any (·.isLE) = true := by
  change decide (((parts x).compare (parts y)).any (·.isLE) = true) = true ↔ _
  rw [decide_eq_true_eq]

/-- What is positive and not above a finite number is neither infinite nor no number. -/
theorem isFinite_of_pos_of_le {x y : Float} (hpos : 0 < x) (hle : x ≤ y)
    (hy : y.isFinite = true) : x.isFinite = true := by
  have hzero : parts 0 = .zero .positive := rfl
  rw [lt_iff, hzero] at hpos
  rw [le_iff] at hle
  change (parts y).isFinite = true at hy
  change (parts x).isFinite = true
  cases hx : parts x with
  | notANumber =>
      rw [hx] at hpos
      cases hpos
  | infinity sign =>
      rw [hx] at hpos hle
      cases sign with
      | negative => cases hpos
      | positive =>
          cases hparts : parts y with
          | notANumber =>
              rw [hparts] at hy
              cases hy
          | infinity =>
              rw [hparts] at hy
              cases hy
          | zero =>
              rw [hparts] at hle
              cases hle
          | finite =>
              rw [hparts] at hle
              cases hle
  | zero => rfl
  | finite => rfl

end TimeStepping
