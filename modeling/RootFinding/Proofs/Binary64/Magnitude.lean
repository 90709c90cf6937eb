import RootFinding.Proofs.Binary64.Arithmetic

/-!
# Numbers of one magnitude

Packing and rounding leave the sign alone, so what they make of two numbers of one magnitude has one
magnitude again. A number and its opposite have the same magnitude, and so have the two differences
of a pair of numbers, also where they are infinite or NaN.
-/

namespace RootFinding.Binary64

open Float.Model Float.Model.UnpackedFloat

theorem abs_unpack_packComponents (s : Sign) (e : BitVec 11) (m : BitVec 52) :
    (UnpackedFloat.unpack .binary64 (packComponents .binary64 s e m)).abs =
      UnpackedFloat.unpack .binary64 (packComponents .binary64 .positive e m) := by
  unfold UnpackedFloat.unpack
  simp only [unpackExponent_packComponents, unpackMantissa_packComponents,
    unpackSign_packComponents, ofBitVec_toBitVec]
  split
  · split <;> rfl
  · split
    · split <;> rfl
    · rfl

theorem abs_repack (u : UnpackedFloat) :
    (UnpackedFloat.unpack .binary64 (UnpackedFloat.pack .binary64 u)).abs =
      UnpackedFloat.unpack .binary64 (UnpackedFloat.pack .binary64 u.abs) := by
  cases u with
  | notANumber => rfl
  | infinity s => cases s <;> rfl
  | zero s => cases s <;> rfl
  | finite s m e hm =>
    change (UnpackedFloat.unpack .binary64 (UnpackedFloat.pack .binary64 (.finite s m e hm))).abs =
      UnpackedFloat.unpack .binary64 (UnpackedFloat.pack .binary64 (.finite .positive m e hm))
    unfold UnpackedFloat.pack
    dsimp only
    split
    · exact abs_unpack_packComponents s _ _
    · split
      · exact abs_unpack_packComponents s _ _
      · exact abs_unpack_packComponents s _ _

theorem abs_roundWithAccuracy (s : Sign) (m : Nat) (e : Int) (accuracy : Accuracy) :
    (roundWithAccuracy .binary64 s m e accuracy).abs =
      roundWithAccuracy .binary64 .positive m e accuracy := by
  unfold roundWithAccuracy
  dsimp only
  split <;> rfl

theorem abs_round (s : Sign) (m : Nat) (e : Int) :
    (UnpackedFloat.round .binary64 s m e).abs = UnpackedFloat.round .binary64 .positive m e :=
  abs_roundWithAccuracy s _ _ .exact

theorem abs_normalize_neg (m e : Int) (zeroSign : Sign) :
    (UnpackedFloat.normalize .binary64 (-m) e zeroSign).abs =
      (UnpackedFloat.normalize .binary64 m e zeroSign).abs := by
  unfold UnpackedFloat.normalize
  rcases lt_trichotomy m 0 with hneg | rfl | hpos
  · rw [compare_lt_iff_lt.2 hneg, compare_gt_iff_gt.2 (Int.neg_pos.2 hneg)]
    exact (abs_round .positive _ e).trans (abs_round .negative _ e).symm
  · rfl
  · rw [compare_gt_iff_gt.2 hpos, compare_lt_iff_lt.2 (Int.neg_lt_zero_iff.2 hpos)]
    dsimp only
    rw [abs_round, abs_round, Int.neg_neg]

theorem abs_sub_unpacked (u v : UnpackedFloat) :
    (UnpackedFloat.sub .binary64 u v).abs = (UnpackedFloat.sub .binary64 v u).abs := by
  cases u with
  | notANumber => cases v <;> rfl
  | infinity s =>
    cases v with
    | infinity t => cases s <;> cases t <;> rfl
    | _ => rfl
  | zero s =>
    cases v with
    | zero t => cases s <;> cases t <;> rfl
    | _ => rfl
  | finite s m e hm =>
    cases v with
    | finite t n d hn =>
      have hflip := abs_normalize_neg (s.apply ((m <<< (e - min e d).toNat : ℕ) : ℤ) -
        t.apply ((n <<< (d - min e d).toNat : ℕ) : ℤ)) (min e d) .positive
      rw [neg_sub] at hflip
      unfold UnpackedFloat.sub decreaseExponent
      dsimp only
      rw [min_comm d e]
      exact hflip.symm
    | _ => rfl

theorem magnitude_eq_of_unpacked {a b : Float} (h : (unpacked a).abs = (unpacked b).abs) :
    a.abs = b.abs :=
  congrArg (fun u => Float.ofModel (Float.Model.pack u)) h

theorem magnitude_neg (a : Float) : (-a).abs = a.abs := by
  refine magnitude_eq_of_unpacked ?_
  rw [unpacked_neg]
  cases unpacked a <;> rfl

theorem magnitude_sub_comm (a b : Float) : (a - b).abs = (b - a).abs := by
  refine magnitude_eq_of_unpacked ((abs_repack _).trans (Eq.trans ?_ (abs_repack _).symm))
  rw [abs_sub_unpacked]

end RootFinding.Binary64
