import Mathlib
import RootFinding.Norm

/-!
# Binary64 numbers unpacked

The operations on binary64 numbers unpack their arguments, compute, and pack the result again.
Unpacking gives a canonical number, and a canonical number survives being packed, so a change of
sign can be read off the unpacked form. From this follow the few facts about NaN and the sign of
a magnitude on which the norms rest.
-/

namespace RootFinding.Binary64

open Float.Model Float.Model.UnpackedFloat

abbrev unpacked (a : Float) : UnpackedFloat := a.toModel.unpack

/-- What unpacking can give: a finite number has 53 digits, or fewer at the least exponent. -/
def Canonical : UnpackedFloat → Prop
  | .finite _ m e _ => m < 2 ^ 53 ∧ -1074 ≤ e ∧ e ≤ 971 ∧ (2 ^ 52 ≤ m ∨ e = -1074)
  | _ => True

theorem Canonical.abs {u : UnpackedFloat} (h : Canonical u) : Canonical u.abs := by
  cases u with
  | infinity s => trivial
  | notANumber => trivial
  | zero s => trivial
  | finite s m e hm => exact h

theorem Canonical.neg {u : UnpackedFloat} (h : Canonical u) : Canonical u.neg := by
  cases u <;> exact h

theorem unpackSign_packComponents {spec : Format} {s : Sign} {e m} :
    unpackSign (packComponents spec s e m) = s.toBitVec := by
  ext i hi
  obtain rfl : i = 0 := by omega
  simp [unpackSign, packComponents, BitVec.getLsbD_append, BitVec.getElem_append]

theorem ofBitVec_toBitVec (s : Sign) : Sign.ofBitVec s.toBitVec = s := by
  cases s <;> rfl

theorem toNat_implicit (m : BitVec 52) : (1#1 ++ m).toNat = 2 ^ 52 + m.toNat := by
  rw [BitVec.toNat_append, ← Nat.shiftLeft_add_eq_or_of_lt m.isLt]
  rfl

theorem exponentBias_binary64 : Format.binary64.exponentBias = 1023 := rfl

theorem canonical_unpack (b : BitVec Format.binary64.numBits) :
    Canonical (UnpackedFloat.unpack .binary64 b) := by
  have hm : (unpackMantissa b).toNat < 2 ^ 52 := (unpackMantissa b).isLt
  have he : (unpackExponent b).toNat < 2048 := (unpackExponent b).isLt
  unfold UnpackedFloat.unpack
  dsimp only
  split
  · split <;> trivial
  · next hinf =>
    have htop : (unpackExponent b).toNat ≠ 2047 := fun h => hinf (BitVec.eq_of_toNat_eq h)
    split
    · next hzero =>
      split
      · trivial
      · simp only [Canonical, hzero, exponentBias_binary64, BitVec.toNat_zero]
        omega
    · next hzero =>
      have hpos : (unpackExponent b).toNat ≠ 0 := fun h => hzero (BitVec.eq_of_toNat_eq h)
      simp only [Canonical, toNat_implicit, exponentBias_binary64]
      omega

theorem unpack_subnormal (s : Sign) {m : Nat} (hm : 0 < m) (h : m < 2 ^ 52) :
    UnpackedFloat.unpack .binary64 (packComponents .binary64 s 0#11 (BitVec.ofNat 52 m)) =
      .finite s m (-1074) hm := by
  have hmod : m % 2 ^ 52 = m := Nat.mod_eq_of_lt h
  have hne : BitVec.ofNat 52 m ≠ 0#52 := by
    intro hz
    have := congrArg BitVec.toNat hz
    simp only [BitVec.toNat_ofNat] at this
    omega
  unfold UnpackedFloat.unpack
  simp only [unpackExponent_packComponents, unpackMantissa_packComponents,
    unpackSign_packComponents, ofBitVec_toBitVec, exponentBias_binary64, hne,
    BitVec.toNat_ofNat, hmod]
  rfl

theorem unpack_normal (s : Sign) {m : Nat} {e : Nat} (hm : 0 < m) (h : m < 2 ^ 53)
    (hlow : 2 ^ 52 ≤ m) (he : 0 < e) (hemax : e < 2047) :
    UnpackedFloat.unpack .binary64
        (packComponents .binary64 s (BitVec.ofNat 11 e) (BitVec.ofNat 52 m)) =
      .finite s m (e - 1075) hm := by
  have hmod : e % 2 ^ 11 = e := Nat.mod_eq_of_lt (by omega)
  have hzero : BitVec.ofNat 11 e ≠ 0#11 := by
    intro hz
    have := congrArg BitVec.toNat hz
    simp only [BitVec.toNat_ofNat] at this
    omega
  have htop : BitVec.ofNat 11 e ≠ -1#11 := by
    intro hz
    have : e % 2 ^ 11 = 2047 := by simpa using congrArg BitVec.toNat hz
    omega
  have hmant : 2 ^ 52 + m % 2 ^ 52 = m := by omega
  unfold UnpackedFloat.unpack
  simp only [unpackExponent_packComponents, unpackMantissa_packComponents,
    unpackSign_packComponents, ofBitVec_toBitVec, exponentBias_binary64, htop, hzero, if_false,
    toNat_implicit, BitVec.toNat_ofNat, hmod, hmant]
  rfl

theorem unpack_pack {u : UnpackedFloat} (h : Canonical u) :
    UnpackedFloat.unpack .binary64 (UnpackedFloat.pack .binary64 u) = u := by
  cases u with
  | infinity s => cases s <;> rfl
  | notANumber => rfl
  | zero s => cases s <;> rfl
  | finite s m e hm =>
    obtain ⟨hlt, hlow, hhigh, hnormal⟩ := h
    have hbits : Format.binary64.mantissaBits = 53 := rfl
    have hfits : ¬ 2 ^ 11 ≤ (e + (1023 : Nat) + (52 : Nat)).toNat + 1 := by omega
    unfold UnpackedFloat.pack
    simp only [exponentBias_binary64, hbits]
    by_cases hm52 : 2 ^ 52 ≤ m
    · have hlog : m.log2 = 52 := by
        rw [Nat.log2_eq_iff (Nat.ne_of_gt hm)]
        exact ⟨hm52, hlt⟩
      rw [if_neg hfits, if_pos (by omega), unpack_normal s hm hlt hm52 (by omega) (by omega)]
      congr 1
      omega
    · have hlog : m.log2 < 52 := (Nat.log2_lt (Nat.ne_of_gt hm)).2 (by omega)
      obtain rfl : e = -1074 := by omega
      rw [if_neg hfits, if_neg (by omega), unpack_subnormal s hm (by omega)]

theorem unpacked_abs (a : Float) : unpacked a.abs = (unpacked a).abs :=
  unpack_pack (canonical_unpack _).abs

theorem unpacked_neg (a : Float) : unpacked (-a) = (unpacked a).neg :=
  unpack_pack (canonical_unpack _).neg

theorem isNaN_abs (a : Float) : a.abs.isNaN = a.isNaN := by
  change (unpacked a.abs).isNaN = (unpacked a).isNaN
  rw [unpacked_abs]
  cases unpacked a <;> rfl

theorem isFinite_abs (a : Float) : a.abs.isFinite = a.isFinite := by
  change (unpacked a.abs).isFinite = (unpacked a).isFinite
  rw [unpacked_abs]
  cases unpacked a <;> rfl

theorem isFinite_neg (a : Float) : (-a).isFinite = a.isFinite := by
  change (unpacked (-a)).isFinite = (unpacked a).isFinite
  rw [unpacked_neg]
  cases unpacked a <;> rfl

theorem neg_eq_infinity_iff {a : Float} :
    unpacked (-a) = .infinity .positive ↔ unpacked a = .infinity .negative := by
  rw [unpacked_neg]
  cases unpacked a with
  | infinity s =>
    cases s with
    | negative => exact iff_of_true rfl rfl
    | positive => exact iff_of_false nofun nofun
  | _ => exact iff_of_false nofun nofun

theorem unpacked_zero : unpacked 0 = .zero .positive := rfl

theorem lt_iff_compare {a b : Float} :
    a < b ↔ (unpacked a).compare (unpacked b) = some .lt := by
  change Float.lt a b = true ↔ _
  rw [Float.lt, decide_eq_true_iff]
  exact beq_iff_eq

theorem not_lt_of_isNaN {a : Float} (h : a.isNaN = true) (b : Float) : ¬ a < b := by
  rw [lt_iff_compare]
  change (unpacked a).isNaN = true at h
  cases hu : unpacked a with
  | notANumber => simp [UnpackedFloat.compare]
  | infinity s => simp [hu, UnpackedFloat.isNaN] at h
  | zero s => simp [hu, UnpackedFloat.isNaN] at h
  | finite s m e hm => simp [hu, UnpackedFloat.isNaN] at h

theorem pos_of_abs_lt {a b : Float} (h : a.abs < b) : 0 < b := by
  rw [lt_iff_compare, unpacked_abs] at h
  rw [lt_iff_compare, unpacked_zero]
  cases ha : unpacked a with
  | notANumber => simp [ha, UnpackedFloat.abs, UnpackedFloat.compare] at h
  | infinity s =>
    rw [ha] at h
    cases hb : unpacked b with
    | infinity t => cases t <;> simp [hb, UnpackedFloat.abs, UnpackedFloat.compare] at h ⊢
    | _ => simp [hb, UnpackedFloat.abs, UnpackedFloat.compare] at h
  | zero s => rwa [ha] at h
  | finite s m e hm =>
    rw [ha] at h
    cases hb : unpacked b with
    | notANumber => simp [hb, UnpackedFloat.abs, UnpackedFloat.compare] at h
    | infinity t => cases t <;> simp [hb, UnpackedFloat.abs, UnpackedFloat.compare] at h ⊢
    | zero t => simp [hb, UnpackedFloat.abs, UnpackedFloat.compare] at h
    | finite t m' e' hm' => cases t <;> simp [hb, UnpackedFloat.abs, UnpackedFloat.compare] at h ⊢

theorem isNaN_of_isFinite {a : Float} (h : a.isFinite = true) : a.isNaN = false := by
  change (unpacked a).isFinite = true at h
  change (unpacked a).isNaN = false
  cases hu : unpacked a with
  | notANumber => simp [hu, UnpackedFloat.isFinite] at h
  | _ => rfl

theorem isFinite_eq_false_iff {a : Float} :
    a.isFinite = false ↔ a.isNaN = true ∨ a.isInf = true := by
  change (unpacked a).isFinite = false ↔ (unpacked a).isNaN = true ∨ (unpacked a).isInf = true
  cases unpacked a with
  | notANumber => exact iff_of_true rfl (Or.inl rfl)
  | infinity s => exact iff_of_true rfl (Or.inr rfl)
  | zero s => exact iff_of_false Bool.noConfusion (Or.rec Bool.noConfusion Bool.noConfusion)
  | finite s m e hm =>
    exact iff_of_false Bool.noConfusion (Or.rec Bool.noConfusion Bool.noConfusion)

end RootFinding.Binary64
