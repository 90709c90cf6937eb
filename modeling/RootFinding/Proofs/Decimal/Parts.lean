import RootFinding.Decimal.Numeral
import RootFinding.Proofs.Binary64.Unpacked

/-!
# A binary64 number is its parts

The parts of a number leave out nothing: the bits of a number that is not NaN can be put together
from them again, and all NaNs are one. A finite number has 53 binary digits, or fewer at the least
exponent.
-/

namespace RootFinding.Decimal

open Float.Model Float.Model.UnpackedFloat

theorem fieldUnit_eq : fieldUnit = 2 ^ 52 := rfl

theorem signUnit_eq : signUnit = 2 ^ 63 := rfl

theorem toNat_unpackExponent (b : BitVec Format.binary64.numBits) :
    (unpackExponent b).toNat = b.toNat / fieldUnit % 2048 := by
  unfold unpackExponent
  rw [BitVec.toNat_cast, BitVec.extractLsb_toNat, Nat.shiftRight_eq_div_pow]
  rfl

theorem toNat_unpackMantissa (b : BitVec Format.binary64.numBits) :
    (unpackMantissa b).toNat = b.toNat % fieldUnit := by
  unfold unpackMantissa
  rw [BitVec.toNat_cast, BitVec.extractLsb_toNat, Nat.shiftRight_eq_div_pow, Nat.pow_zero,
    Nat.div_one]
  rfl

inductive Splits (word : Nat) : Parts → Prop
  | infinite (hfield : word / 2 ^ 52 % 2048 = 2047) (hfraction : word % 2 ^ 52 = 0) :
      Splits word (.infinite (decide (2 ^ 63 ≤ word)))
  | nan (hfield : word / 2 ^ 52 % 2048 = 2047) (hfraction : word % 2 ^ 52 ≠ 0) : Splits word .nan
  | subnormal (hfield : word / 2 ^ 52 % 2048 = 0) :
      Splits word (.finite (decide (2 ^ 63 ≤ word)) (word % 2 ^ 52) (-1074))
  | normal (htop : word / 2 ^ 52 % 2048 ≠ 2047) (hfield : word / 2 ^ 52 % 2048 ≠ 0) :
      Splits word (.finite (decide (2 ^ 63 ≤ word)) (2 ^ 52 + word % 2 ^ 52)
        (((word / 2 ^ 52 % 2048 : Nat) : Int) - 1075))

theorem splits_ofWord (word : Nat) : Splits word (.ofWord word) := by
  unfold Parts.ofWord
  dsimp only
  rw [fieldUnit_eq, signUnit_eq]
  split
  · next hfield =>
    split
    · next hfraction => exact .infinite hfield hfraction
    · next hfraction => exact .nan hfield hfraction
  · next htop =>
    split
    · next hfield => exact .subnormal hfield
    · next hfield => exact .normal htop hfield

theorem word_eq {w w' : Nat} (hw : w < 2 ^ 64) (hw' : w' < 2 ^ 64)
    (hsign : decide (2 ^ 63 ≤ w) = decide (2 ^ 63 ≤ w'))
    (hfield : w / 2 ^ 52 % 2048 = w' / 2 ^ 52 % 2048) (hfraction : w % 2 ^ 52 = w' % 2 ^ 52) :
    w = w' := by
  rw [decide_eq_decide] at hsign
  omega

theorem Splits.inj {w w' : Nat} {p : Parts} (hw : w < 2 ^ 64) (hw' : w' < 2 ^ 64)
    (h : Splits w p) (h' : Splits w' p) (hp : p ≠ .nan) : w = w' := by
  cases h with
  | infinite hfield hfraction =>
    generalize hsign : decide (2 ^ 63 ≤ w) = sign at h'
    cases h' with
    | infinite hfield' hfraction' =>
      exact word_eq hw hw' hsign (hfield.trans hfield'.symm) (hfraction.trans hfraction'.symm)
  | nan hfield hfraction => exact absurd rfl hp
  | subnormal hfield =>
    generalize hsign : decide (2 ^ 63 ≤ w) = sign at h'
    generalize hmantissa : w % 2 ^ 52 = m at h'
    generalize hexponent : (-1074 : Int) = q at h'
    cases h' with
    | subnormal hfield' => exact word_eq hw hw' hsign (hfield.trans hfield'.symm) hmantissa
    | normal htop' hfield' => omega
  | normal htop hfield =>
    generalize hsign : decide (2 ^ 63 ≤ w) = sign at h'
    generalize hmantissa : 2 ^ 52 + w % 2 ^ 52 = m at h'
    generalize hexponent : ((w / 2 ^ 52 % 2048 : Nat) : Int) - 1075 = q at h'
    cases h' with
    | subnormal hfield' => omega
    | normal htop' hfield' => exact word_eq hw hw' hsign (by omega) (by omega)

theorem toBits_of_nan {x : Float} (h : parts x = .nan) :
    x.toBits.toBitVec = packedNaN .binary64 := by
  have hsplits : Splits x.toBits.toNat .nan := h ▸ splits_ofWord x.toBits.toNat
  cases hsplits with
  | nan hfield hfraction =>
    refine x.toModel.valid.eq_packedNaN (BitVec.eq_of_toNat_eq ?_) fun hzero => hfraction ?_
    · rw [toNat_unpackExponent]
      exact hfield
    · have hnone := congrArg BitVec.toNat hzero
      rw [toNat_unpackMantissa] at hnone
      exact hnone

theorem parts_injective : Function.Injective parts := by
  intro x y h
  refine Float.toBits_inj.1 ?_
  by_cases hnan : parts x = .nan
  · exact UInt64.toBitVec_inj.1 ((toBits_of_nan hnan).trans (toBits_of_nan (h ▸ hnan)).symm)
  · have hsplits : Splits y.toBits.toNat (parts x) := h ▸ splits_ofWord y.toBits.toNat
    exact UInt64.toNat_inj.1 ((splits_ofWord x.toBits.toNat).inj x.toBits.toNat_lt
      y.toBits.toNat_lt hsplits hnan)

structure Canonical (m : Nat) (q : Int) : Prop where
  mantissa_lt : m < 2 ^ 53
  exponent_ge : -1074 ≤ q
  normal : 2 ^ 52 ≤ m ∨ q = -1074

theorem canonical_of_parts {x : Float} {negative : Bool} {m : Nat} {q : Int}
    (h : parts x = .finite negative m q) : Canonical m q := by
  have hsplits : Splits x.toBits.toNat (.finite negative m q) := h ▸ splits_ofWord x.toBits.toNat
  cases hsplits with
  | subnormal hfield => exact ⟨by omega, by omega, Or.inr rfl⟩
  | normal htop hfield => exact ⟨by omega, by omega, Or.inl (by omega)⟩

theorem exponent_le_of_parts {x : Float} {negative : Bool} {m : Nat} {q : Int}
    (h : parts x = .finite negative m q) : q ≤ 971 := by
  have hsplits : Splits x.toBits.toNat (.finite negative m q) := h ▸ splits_ofWord x.toBits.toNat
  cases hsplits with
  | subnormal hfield => decide
  | normal htop hfield => omega

/-- The same bits, or NaN both. -/
def SameNumber (a b : Float) : Prop :=
  (a.isNaN = true ∧ b.isNaN = true) ∨ a.toBits = b.toBits

theorem parts_eq_nan_iff {x : Float} : parts x = .nan ↔ x.isNaN = true := by
  change parts x = .nan ↔ (UnpackedFloat.unpack .binary64 x.toBits.toBitVec).isNaN = true
  constructor
  · intro h
    rw [toBits_of_nan h]
    rfl
  · intro h
    unfold UnpackedFloat.unpack at h
    dsimp only at h
    split at h
    · next hexponent =>
      split at h
      · cases h
      · next hmantissa =>
        have hfield : x.toBits.toNat / fieldUnit % 2048 = 2047 :=
          (toNat_unpackExponent _).symm.trans (congrArg BitVec.toNat hexponent)
        have hfraction : x.toBits.toNat % fieldUnit ≠ 0 := fun hzero =>
          hmantissa (BitVec.eq_of_toNat_eq ((toNat_unpackMantissa _).trans hzero))
        rw [parts, Parts.ofWord, if_pos hfield, if_neg hfraction]
    · split at h
      · split at h <;> cases h
      · cases h

theorem sameNumber_iff {a b : Float} : SameNumber a b ↔ a = b := by
  constructor
  · rintro (⟨ha, hb⟩ | h)
    · exact parts_injective ((parts_eq_nan_iff.2 ha).trans (parts_eq_nan_iff.2 hb).symm)
    · exact Float.toBits_inj.1 h
  · rintro rfl
    exact Or.inr rfl

end RootFinding.Decimal
