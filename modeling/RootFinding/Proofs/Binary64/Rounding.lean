import RootFinding.Proofs.Binary64.Arithmetic
import RootFinding.Proofs.Binary64.Order

/-!
# How far rounding goes

A finite number stands for a rational one. A sum, a difference and a product are the exact result
shifted to the 53 digits that there is room for, rounded there and packed. The shift loses less than
one unit in the last place and the rounding adds at most one, so the result is off by no more than
that unit, unless it goes beyond the greatest number and is packed as infinity. Which way a tie goes
is nowhere used. A result that has room as it is comes out exactly: multiplying by one changes
nothing.

The order of numbers is that of what they stand for, as a canonical number with the greater exponent
is the greater one. Both signs are rounded alike, so what is said of numbers that are above a result
holds of those below it by negation.
-/

namespace RootFinding.Binary64

open Float.Model Float.Model.UnpackedFloat

/-- The rational number; zero for an infinity and for NaN. -/
def exact : UnpackedFloat → ℚ
  | .finite s m e _ => s.apply m * 2 ^ e
  | _ => 0

def number (a : Float) : ℚ := exact (unpacked a)

theorem exact_neg (u : UnpackedFloat) : exact u.neg = -exact u := by
  cases u with
  | finite s m e hm => cases s <;> simp [exact, UnpackedFloat.neg, Sign.apply]
  | _ => simp [exact, UnpackedFloat.neg]

theorem exact_abs (u : UnpackedFloat) : exact u.abs = |exact u| := by
  cases u with
  | finite s m e hm =>
    have hpos : (0 : ℚ) ≤ m * 2 ^ e := by positivity
    cases s <;> simp [exact, UnpackedFloat.abs, Sign.apply, abs_of_nonneg hpos]
  | _ => simp [exact, UnpackedFloat.abs]

theorem number_zero : number 0 = 0 := rfl

theorem number_one : number 1 = 1 := by
  have hone : unpacked 1 = .finite .positive (2 ^ 52) (-52) (by decide) := rfl
  rw [number, hone]
  norm_num [exact, Sign.apply]

theorem number_abs (a : Float) : number a.abs = |number a| := by
  rw [number, unpacked_abs, exact_abs, number]

theorem number_neg (a : Float) : number (-a) = -number a := by
  rw [number, unpacked_neg, exact_neg, number]

def greatest : ℚ := (2 ^ 53 - 1) * 2 ^ (971 : ℤ)

theorem greatest_pos : 0 < greatest := mul_pos (by norm_num) (zpow_pos two_pos _)

theorem two_zpow_pos (e : ℤ) : (0 : ℚ) < 2 ^ e := zpow_pos two_pos e

theorem two_zpow_le {e e' : ℤ} (h : e ≤ e') : (2 : ℚ) ^ e ≤ 2 ^ e' :=
  zpow_le_zpow_right₀ one_le_two h

theorem abs_exact_le {u : UnpackedFloat} (h : Canonical u) : |exact u| ≤ greatest := by
  rw [← exact_abs]
  cases u with
  | finite s m e hm =>
    obtain ⟨hlt, -, hhigh, -⟩ := h
    have hmantissa : (m : ℚ) ≤ 2 ^ 53 - 1 := by
      have hle : m + 1 ≤ 2 ^ 53 := hlt
      have hcast : (m : ℚ) + 1 ≤ 2 ^ 53 := by exact_mod_cast hle
      linarith
    simp only [UnpackedFloat.abs, exact, Sign.apply, Int.cast_natCast, greatest]
    gcongr
    · exact one_le_two
  | _ => exact greatest_pos.le

theorem mantissa_shift (em : ExtendedMantissa) (k : ℕ) :
    (em >>> k).mantissa = em.mantissa / 2 ^ k := by
  induction k with
  | zero => simp [HShiftRight.hShiftRight, Nat.repeat]
  | succ k ih =>
    change (em >>> k).mantissa / 2 = _
    rw [ih, Nat.div_div_eq_div_mul, Nat.pow_succ]

theorem roundedMantissa_bounds (em : ExtendedMantissa) :
    em.mantissa ≤ em.roundedMantissa ∧ em.roundedMantissa ≤ em.mantissa + 1 := by
  obtain ⟨m, r, s⟩ := em
  cases r <;> cases s <;>
    simp only [ExtendedMantissa.roundedMantissa, ExtendedMantissa.accuracy,
      Accuracy.roundToNearestEven] <;> omega

theorem targetExponent_eq (m : ℕ) (e : ℤ) :
    Format.binary64.targetExponent (totalExponent m e) = max (m.log2 + e - 52) (-1074) := by
  simp only [Format.targetExponent, totalExponent, Format.mantissaBits, Format.minExponent]
  omega

theorem shiftToTargetExponent_of_lt {m : ℕ} {e : ℤ} (hm : m < 2 ^ 53) (he : -1074 ≤ e) :
    shiftToTargetExponent .binary64 m e .exact = (⟨m, false, false⟩, e) := by
  have hlog : m.log2 ≤ 52 := by
    by_cases hzero : m = 0
    · simp [hzero]
    · have hlt := (Nat.log2_lt hzero).2 hm
      omega
  have hshift : (max (m.log2 + e - 52) (-1074) - e).toNat = 0 := by omega
  simp only [shiftToTargetExponent, shiftToExponent, targetExponent_eq, hshift]
  simp [ExtendedMantissa.ofMantissaAndAccuracy, HShiftRight.hShiftRight, Nat.repeat]

theorem shiftToTargetExponent_carry {e : ℤ} (he : -1074 ≤ e) :
    shiftToTargetExponent .binary64 (2 ^ 53) e .exact = (⟨2 ^ 52, false, false⟩, e + 1) := by
  have hlog : (2 ^ 53 : ℕ).log2 = 53 := Nat.log2_two_pow
  have hshift : (max (((2 ^ 53 : ℕ).log2 : ℤ) + e - 52) (-1074) - e).toNat = 1 := by omega
  simp only [shiftToTargetExponent, shiftToExponent, targetExponent_eq, hshift]
  rfl

/-- The shift of a mantissa that is full, or below the least exponent: what is left of it, and
where. -/
structure Shifted (m : ℕ) (e : ℤ) (left : ℕ) (t : ℤ) : Prop where
  least : -1074 ≤ t
  lower : (left : ℚ) * 2 ^ t ≤ m * 2 ^ e
  upper : (m : ℚ) * 2 ^ e < (left + 1) * 2 ^ t
  room : left < 2 ^ 53
  full : 2 ^ 52 ≤ left ∨ t = -1074

theorem shifted_of_full {m : ℕ} {e : ℤ} (hm : 0 < m) (h : 2 ^ 52 ≤ m ∨ e ≤ -1074) :
    ∃ k : ℕ, max (m.log2 + e - 52) (-1074) - e = k ∧
      Shifted m e (m / 2 ^ k) (max (m.log2 + e - 52) (-1074)) := by
  have hself := Nat.log2_self_le hm.ne'
  have hlt : m < 2 ^ (m.log2 + 1) := Nat.lt_log2_self
  have hlog : 2 ^ 52 ≤ m → 52 ≤ m.log2 := fun hle => (Nat.le_log2 hm.ne').2 hle
  obtain ⟨k, hk⟩ : ∃ k : ℕ, max (m.log2 + e - 52) (-1074) - e = k :=
    Int.eq_ofNat_of_zero_le (by omega)
  have hscale : (2 : ℚ) ^ max ((m.log2 : ℤ) + e - 52) (-1074) = 2 ^ k * 2 ^ e := by
    rw [← sub_add_cancel (max ((m.log2 : ℤ) + e - 52) (-1074)) e, hk, zpow_add₀ two_ne_zero,
      zpow_natCast]
  refine ⟨k, hk, le_max_right _ _, ?_, ?_, ?_, ?_⟩
  · have hdiv : m / 2 ^ k * 2 ^ k ≤ m := Nat.div_mul_le_self m (2 ^ k)
    have hcast : ((m / 2 ^ k : ℕ) : ℚ) * 2 ^ k ≤ m := by exact_mod_cast hdiv
    rw [hscale, ← mul_assoc]
    gcongr
  · have hdiv : m < (m / 2 ^ k + 1) * 2 ^ k := Nat.lt_div_mul_add (Nat.two_pow_pos k)
      |>.trans_eq (Nat.succ_mul _ _).symm
    have hcast : (m : ℚ) < ((m / 2 ^ k : ℕ) + 1) * 2 ^ k := by exact_mod_cast hdiv
    rw [hscale, ← mul_assoc]
    gcongr
  · rw [Nat.div_lt_iff_lt_mul (Nat.two_pow_pos k), ← Nat.pow_add]
    exact hlt.trans_le (Nat.pow_le_pow_right two_pos (by omega))
  · by_cases hleast : max ((m.log2 : ℤ) + e - 52) (-1074) = -1074
    · exact Or.inr hleast
    · left
      have hexponent : m.log2 = 52 + k := by omega
      rw [Nat.le_div_iff_mul_le (Nat.two_pow_pos k), ← Nat.pow_add, ← hexponent]
      exact hself

theorem roundWithAccuracy_eq {s : Sign} {m : ℕ} {e : ℤ} (hm : 0 < m) (h : 2 ^ 52 ≤ m ∨ e ≤ -1074) :
    ∃ left t r, Shifted m e left t ∧ left ≤ r ∧ r ≤ left + 1 ∧
      roundWithAccuracy .binary64 s m e .exact =
        if hr : r = 0 then .zero s
        else if r < 2 ^ 53 then .finite s r t (Nat.pos_of_ne_zero hr)
        else .finite s (2 ^ 52) (t + 1) (by decide) := by
  obtain ⟨k, hk, hshifted⟩ := shifted_of_full hm h
  have hfirst : shiftToTargetExponent .binary64 m e .exact =
      ((ExtendedMantissa.ofMantissaAndAccuracy m .exact) >>> k,
        max ((m.log2 : ℤ) + e - 52) (-1074)) := by
    simp only [shiftToTargetExponent, shiftToExponent, targetExponent_eq, hk, Int.toNat_natCast]
    rw [← hk, add_sub_cancel]
  have hleft : ((ExtendedMantissa.ofMantissaAndAccuracy m .exact) >>> k).mantissa = m / 2 ^ k :=
    mantissa_shift _ k
  obtain ⟨hlower, hupper⟩ :=
    roundedMantissa_bounds ((ExtendedMantissa.ofMantissaAndAccuracy m .exact) >>> k)
  rw [hleft] at hlower hupper
  refine ⟨_, _, _, hshifted, hlower, hupper, ?_⟩
  rw [roundWithAccuracy, hfirst]
  dsimp only
  generalize ((ExtendedMantissa.ofMantissaAndAccuracy m .exact) >>> k).roundedMantissa = r
    at hlower hupper ⊢
  have hroom := hshifted.room
  by_cases hcarry : r < 2 ^ 53
  · rw [shiftToTargetExponent_of_lt hcarry hshifted.least]
    simp only [hcarry, if_true]
  · obtain rfl : r = 2 ^ 53 := by omega
    rw [shiftToTargetExponent_carry hshifted.least]
    rfl

/-- One unit in the last place of a result, or of the least numbers. -/
def slack (q : ℚ) : ℚ := |q| * 2 ^ (-52 : ℤ) + 2 ^ (-1074 : ℤ)

/-- What may come out for the exact result: a number off by the slack at most, or an infinity in
place of a number that is not below the greatest. -/
inductive Rounds (q : ℚ) : UnpackedFloat → Prop
  | near {u : UnpackedFloat} (finite : u.isFinite = true) (error : |exact u - q| ≤ slack q) :
      Rounds q u
  | beyond {s : Sign} (h : greatest ≤ s.apply 1 * q) : Rounds q (.infinity s)

theorem slack_nonneg (q : ℚ) : 0 ≤ slack q :=
  add_nonneg (mul_nonneg (abs_nonneg q) (two_zpow_pos _).le) (two_zpow_pos _).le

theorem slack_le {q m : ℚ} (hm : 1 ≤ m) (h : |q| ≤ 2 * m) : slack q ≤ m * 2 ^ (-50 : ℤ) := by
  have htiny : (2 : ℚ) ^ (-1074 : ℤ) ≤ 2 ^ (-51 : ℤ) := two_zpow_le (by decide)
  have hone : (2 : ℚ) ^ (-51 : ℤ) ≤ m * 2 ^ (-51 : ℤ) :=
    le_mul_of_one_le_left (two_zpow_pos _).le hm
  calc slack q = |q| * 2 ^ (-52 : ℤ) + 2 ^ (-1074 : ℤ) := rfl
    _ ≤ 2 * m * 2 ^ (-52 : ℤ) + m * 2 ^ (-51 : ℤ) := by
        gcongr
        exact htiny.trans hone
    _ = m * 2 ^ (-50 : ℤ) := by norm_num; ring

theorem rounds_exact {u : UnpackedFloat} (h : u.isFinite = true) : Rounds (exact u) u := by
  refine .near h ?_
  rw [sub_self, abs_zero]
  exact slack_nonneg _

theorem rounds_zero (s : Sign) : Rounds 0 (.zero s) := rounds_exact (u := .zero s) rfl

theorem Rounds.neg {q : ℚ} {u : UnpackedFloat} (h : Rounds q u) : Rounds (-q) u.neg := by
  cases h with
  | near finite error =>
    refine .near ?_ ?_
    · cases u <;> exact finite
    · rwa [exact_neg, ← neg_sub', abs_neg, slack, abs_neg]
  | @beyond s hbeyond =>
    refine .beyond ?_
    cases s <;> simpa [Sign.apply] using hbeyond

theorem apply_mul_le_abs (s : Sign) (q : ℚ) : s.apply 1 * q ≤ |q| := by
  cases s with
  | positive => simpa [Sign.apply] using le_abs_self q
  | negative => simpa [Sign.apply] using neg_le_abs q

theorem Shifted.two_zpow_le_slack {m : ℕ} {e : ℤ} {left : ℕ} {t : ℤ} (h : Shifted m e left t) :
    (2 : ℚ) ^ t ≤ slack (m * 2 ^ e) := by
  have hpos : (0 : ℚ) ≤ m * 2 ^ e := by positivity
  rw [slack, abs_of_nonneg hpos]
  rcases h.full with hfull | rfl
  · have hcast : (2 : ℚ) ^ (52 : ℤ) ≤ left := by exact_mod_cast hfull
    have hunit : (2 : ℚ) ^ (52 : ℤ) * 2 ^ t ≤ m * 2 ^ e :=
      (mul_le_mul_of_nonneg_right hcast (two_zpow_pos t).le).trans h.lower
    calc (2 : ℚ) ^ t = 2 ^ (52 : ℤ) * 2 ^ t * 2 ^ (-52 : ℤ) := by
          rw [mul_right_comm, ← zpow_add₀ two_ne_zero, add_neg_cancel, zpow_zero, one_mul]
      _ ≤ m * 2 ^ e * 2 ^ (-52 : ℤ) := mul_le_mul_of_nonneg_right hunit (two_zpow_pos _).le
      _ ≤ m * 2 ^ e * 2 ^ (-52 : ℤ) + 2 ^ (-1074 : ℤ) := le_add_of_nonneg_right (two_zpow_pos _).le
  · exact le_add_of_nonneg_left (mul_nonneg hpos (two_zpow_pos _).le)

theorem abs_apply_mul (s : Sign) (a b : ℚ) :
    |(s.apply 1 : ℚ) * a - s.apply 1 * b| = |a - b| := by
  cases s with
  | positive => simp [Sign.apply]
  | negative =>
    rw [← mul_sub, abs_mul]
    simp [Sign.apply]

theorem apply_cast (s : Sign) (m : ℤ) : ((s.apply m : ℤ) : ℚ) = s.apply 1 * m := by
  cases s <;> simp [Sign.apply]

theorem Shifted.near {m : ℕ} {e : ℤ} {left r : ℕ} {t : ℤ} (h : Shifted m e left t)
    (hlower : left ≤ r) (hupper : r ≤ left + 1) {s : Sign} {u : UnpackedFloat}
    (hu : u.isFinite = true) (hexact : exact u = s.apply 1 * (r * 2 ^ t)) :
    Rounds (s.apply 1 * (m * 2 ^ e)) u := by
  refine .near hu ?_
  have hpos : (0 : ℚ) < 2 ^ t := two_zpow_pos t
  have hr : (left : ℚ) ≤ r ∧ (r : ℚ) ≤ left + 1 :=
    ⟨by exact_mod_cast hlower, by exact_mod_cast hupper⟩
  have hslack : slack (s.apply 1 * (m * 2 ^ e)) = slack (m * 2 ^ e) := by
    cases s <;> simp [slack, Sign.apply]
  rw [hexact, abs_apply_mul, hslack]
  refine LE.le.trans ?_ h.two_zpow_le_slack
  have hbelow := mul_le_mul_of_nonneg_right hr.1 hpos.le
  have habove := mul_le_mul_of_nonneg_right hr.2 hpos.le
  have hleast := h.lower
  have hmost := h.upper
  rw [add_mul, one_mul] at hmost habove
  exact abs_sub_le_iff.2 ⟨by linarith, by linarith⟩

theorem repack_finite {s : Sign} {m : ℕ} {e : ℤ} (hm : 0 < m) (hlt : m < 2 ^ 53)
    (hlow : -1074 ≤ e) (hfull : 2 ^ 52 ≤ m ∨ e = -1074) :
    UnpackedFloat.unpack .binary64 (UnpackedFloat.pack .binary64 (.finite s m e hm)) =
      if e ≤ 971 then .finite s m e hm else .infinity s := by
  by_cases hhigh : e ≤ 971
  · rw [if_pos hhigh]
    exact unpack_pack ⟨hlt, hlow, hhigh, hfull⟩
  · rw [if_neg hhigh]
    unfold UnpackedFloat.pack
    dsimp only
    split
    · cases s <;> rfl
    · next hfits =>
      rw [exponentBias_binary64] at hfits
      omega

theorem greatest_le_of_shifted {m : ℕ} {e : ℤ} {left : ℕ} {t : ℤ} (h : Shifted m e left t)
    (ht : 971 < t ∨ t = 971 ∧ left + 1 = 2 ^ 53) : greatest ≤ m * 2 ^ e := by
  refine LE.le.trans ?_ h.lower
  rcases ht with ht | ⟨rfl, hleft⟩
  · have hfull : 2 ^ 52 ≤ left := h.full.resolve_right (by omega)
    have hcast : (2 : ℚ) ^ 52 ≤ left := by exact_mod_cast hfull
    calc greatest ≤ 2 ^ 52 * 2 * 2 ^ (971 : ℤ) := by
          rw [greatest]
          gcongr
          norm_num
      _ = 2 ^ 52 * 2 ^ (972 : ℤ) := by
          rw [mul_assoc, ← zpow_one_add₀ two_ne_zero]
          norm_num
      _ ≤ left * 2 ^ t := by
          gcongr
          · exact one_le_two
          · omega
  · have hcast : (left : ℚ) + 1 = 2 ^ 53 := by exact_mod_cast hleft
    rw [greatest, ← hcast, add_sub_cancel_right]

theorem rounds_roundWithAccuracy (s : Sign) {m : ℕ} {e : ℤ} (hm : 0 < m)
    (h : 2 ^ 52 ≤ m ∨ e ≤ -1074) :
    Rounds (s.apply 1 * (m * 2 ^ e)) (UnpackedFloat.unpack .binary64
      (UnpackedFloat.pack .binary64 (roundWithAccuracy .binary64 s m e .exact))) := by
  obtain ⟨left, t, r, hshifted, hlower, hupper, hround⟩ := roundWithAccuracy_eq (s := s) hm h
  have hleast := hshifted.least
  have hroom := hshifted.room
  have hbeyond (ht : 971 < t ∨ t = 971 ∧ left + 1 = 2 ^ 53) :
      Rounds (s.apply 1 * (m * 2 ^ e)) (.infinity s) := by
    refine .beyond ?_
    have hsign : (s.apply 1 : ℚ) * (s.apply 1 * (m * 2 ^ e)) = m * 2 ^ e := by
      cases s <;> simp [Sign.apply]
    rw [hsign]
    exact greatest_le_of_shifted hshifted ht
  rw [hround]
  -- all is rounded away, or the result has room, or rounding carried it to the next power of two
  by_cases hzero : r = 0
  · rw [dif_pos hzero]
    subst hzero
    refine hshifted.near (s := s) hlower hupper ?_ ?_
    · cases s <;> rfl
    · cases s <;> simp [exact, Sign.apply] <;> rfl
  rw [dif_neg hzero]
  by_cases hcarry : r < 2 ^ 53
  · rw [if_pos hcarry, repack_finite (Nat.pos_of_ne_zero hzero) hcarry hleast
      (hshifted.full.imp_left fun hfull => hfull.trans hlower)]
    split
    · refine hshifted.near (s := s) hlower hupper rfl ?_
      rw [exact, apply_cast, mul_assoc]
      rfl
    · exact hbeyond (Or.inl (by omega))
  · obtain rfl : r = 2 ^ 53 := by omega
    rw [if_neg hcarry, repack_finite (by decide) (by decide) (by omega) (Or.inl le_rfl)]
    split
    · refine hshifted.near (s := s) hlower hupper rfl ?_
      rw [exact, apply_cast, zpow_add_one₀ two_ne_zero]
      push_cast
      ring
    · exact hbeyond (by omega)

theorem shiftLeft_mul_two_zpow (m k : ℕ) (e : ℤ) :
    ((m <<< k : ℕ) : ℚ) * 2 ^ (e - k) = m * 2 ^ e := by
  rw [Nat.shiftLeft_eq, zpow_sub₀ two_ne_zero, zpow_natCast]
  push_cast
  field_simp

theorem rounds_round (s : Sign) {m : ℕ} (hm : 0 < m) (e : ℤ) :
    Rounds (s.apply 1 * (m * 2 ^ e)) (UnpackedFloat.unpack .binary64
      (UnpackedFloat.pack .binary64 (UnpackedFloat.round .binary64 s m e))) := by
  unfold UnpackedFloat.round decreaseExponent
  simp only [targetExponent_eq]
  obtain ⟨k, hk⟩ : ∃ k : ℕ, (e - max (m.log2 + e - 52) (-1074)).toNat = k := ⟨_, rfl⟩
  rw [hk, ← shiftLeft_mul_two_zpow m k e]
  have hpos : 0 < m <<< k := by
    rw [Nat.shiftLeft_eq]
    exact Nat.mul_pos hm (Nat.two_pow_pos k)
  refine rounds_roundWithAccuracy s hpos ?_
  by_cases hlow : e - k ≤ -1074
  · exact Or.inr hlow
  · left
    have hself : 2 ^ (m.log2 + k) ≤ m <<< k := by
      rw [Nat.shiftLeft_eq, Nat.pow_add]
      exact Nat.mul_le_mul_right _ (Nat.log2_self_le hm.ne')
    exact (Nat.pow_le_pow_right two_pos (by omega)).trans hself

theorem rounds_signed (s : Sign) {m : ℤ} {k : ℕ} (hk : 0 < k) (h : m = s.apply k) (e : ℤ) :
    Rounds (m * 2 ^ e) (UnpackedFloat.unpack .binary64
      (UnpackedFloat.pack .binary64 (UnpackedFloat.round .binary64 s k e))) := by
  rw [h, apply_cast, Int.cast_natCast, mul_assoc]
  exact rounds_round s hk e

theorem rounds_normalize (m e : ℤ) (zeroSign : Sign) :
    Rounds (m * 2 ^ e) (UnpackedFloat.unpack .binary64
      (UnpackedFloat.pack .binary64 (UnpackedFloat.normalize .binary64 m e zeroSign))) := by
  unfold UnpackedFloat.normalize
  rcases lt_trichotomy m 0 with hneg | rfl | hpos
  · have hsize : m = -((-m).toNat : ℤ) := by omega
    rw [compare_lt_iff_lt.2 hneg]
    exact rounds_signed .negative (by omega) hsize e
  · rw [compare_eq_iff_eq.2 rfl, Int.cast_zero, zero_mul]
    dsimp only
    cases zeroSign <;> exact rounds_zero _
  · have hsize : m = (m.toNat : ℤ) := by omega
    rw [compare_gt_iff_gt.2 hpos]
    exact rounds_signed .positive (by omega) hsize e

theorem rounds_of_canonical {u : UnpackedFloat} (h : Canonical u) (hfinite : u.isFinite = true) :
    Rounds (exact u) (UnpackedFloat.unpack .binary64 (UnpackedFloat.pack .binary64 u)) := by
  rw [unpack_pack h]
  exact rounds_exact hfinite

theorem exact_decreased (s : Sign) (m : ℕ) {e e' : ℤ} (h : e' ≤ e) :
    ((s.apply ((m <<< (e - e').toNat : ℕ) : ℤ) : ℤ) : ℚ) * 2 ^ e' = s.apply m * 2 ^ e := by
  have hplace : e - ((e - e').toNat : ℕ) = e' := by omega
  have hvalue := shiftLeft_mul_two_zpow m (e - e').toNat e
  rw [hplace] at hvalue
  rw [apply_cast s ((m <<< (e - e').toNat : ℕ) : ℤ), apply_cast s (m : ℤ), mul_assoc, mul_assoc]
  exact congrArg _ hvalue

theorem rounds_add_unpacked {u v : UnpackedFloat} (hu : Canonical u) (hv : Canonical v)
    (hfu : u.isFinite = true) (hfv : v.isFinite = true) :
    Rounds (exact u + exact v) (UnpackedFloat.unpack .binary64
      (UnpackedFloat.pack .binary64 (UnpackedFloat.add .binary64 u v))) := by
  cases u with
  | infinity s => cases hfu
  | notANumber => cases hfu
  | zero s =>
    change Rounds (0 + exact v) _
    rw [zero_add]
    cases v with
    | infinity t => cases hfv
    | notANumber => cases hfv
    | zero t => cases s <;> cases t <;> exact rounds_zero _
    | finite t n d hn => exact rounds_of_canonical hv rfl
  | finite s m e hm =>
    cases v with
    | infinity t => cases hfv
    | notANumber => cases hfv
    | zero t =>
      change Rounds (exact (.finite s m e hm) + 0) _
      rw [add_zero]
      exact rounds_of_canonical hu rfl
    | finite t n d hn =>
      have hsum := rounds_normalize (s.apply ((m <<< (e - min e d).toNat : ℕ) : ℤ) +
        t.apply ((n <<< (d - min e d).toNat : ℕ) : ℤ)) (min e d) .positive
      rw [Int.cast_add, add_mul, exact_decreased s m (min_le_left e d),
        exact_decreased t n (min_le_right e d)] at hsum
      exact hsum

theorem rounds_add {a b : Float} (ha : a.isFinite = true) (hb : b.isFinite = true) :
    Rounds (number a + number b) (unpacked (a + b)) :=
  rounds_add_unpacked (canonical_unpack _) (canonical_unpack _) ha hb

theorem rounds_sub {a b : Float} (ha : a.isFinite = true) (hb : b.isFinite = true) :
    Rounds (number a - number b) (unpacked (a - b)) := by
  rw [sub_eq_add_neg, ← number_neg, sub_eq_add]
  exact rounds_add ha ((isFinite_neg b).trans hb)

theorem rounds_mul_finite {s t : Sign} {m n : ℕ} {e d : ℤ} {hm : 0 < m} {hn : 0 < n}
    (hu : Canonical (.finite s m e hm)) (hv : Canonical (.finite t n d hn)) :
    Rounds (exact (.finite s m e hm) * exact (.finite t n d hn))
      (UnpackedFloat.unpack .binary64 (UnpackedFloat.pack .binary64
        (roundWithAccuracy .binary64 (s * t) (m * n) (e + d) .exact))) := by
  -- a factor that is not full has the least exponent, so there are no digits to be put below
  have hplace : 2 ^ 52 ≤ m * n ∨ e + d ≤ -1074 := by
    rcases hu.2.2.2 with hfull | rfl
    · exact Or.inl (hfull.trans (Nat.le_mul_of_pos_right m hn))
    rcases hv.2.2.2 with hfull | rfl
    · exact Or.inl (hfull.trans (Nat.le_mul_of_pos_left n hm))
    exact Or.inr (by decide)
  have hvalue : ((s * t).apply 1 : ℚ) * ((m * n : ℕ) * 2 ^ (e + d)) =
      exact (.finite s m e hm) * exact (.finite t n d hn) := by
    rw [zpow_add₀ two_ne_zero]
    cases s <;> cases t <;> simp [exact, Sign.apply] <;> ring
  rw [← hvalue]
  exact rounds_roundWithAccuracy (s * t) (Nat.mul_pos hm hn) hplace

theorem rounds_mul {a b : Float} (ha : a.isFinite = true) (hb : b.isFinite = true) :
    Rounds (number a * number b) (unpacked (a * b)) := by
  change (unpacked a).isFinite = true at ha
  change (unpacked b).isFinite = true at hb
  change Rounds (exact (unpacked a) * exact (unpacked b)) (UnpackedFloat.unpack .binary64
    (UnpackedFloat.pack .binary64 (UnpackedFloat.mul .binary64 (unpacked a) (unpacked b))))
  have hca : Canonical (unpacked a) := canonical_unpack _
  have hcb : Canonical (unpacked b) := canonical_unpack _
  generalize unpacked a = u at ha hca ⊢
  generalize unpacked b = v at hb hcb ⊢
  cases u with
  | infinity s => cases ha
  | notANumber => cases ha
  | zero s =>
    change Rounds (0 * exact v) _
    rw [zero_mul]
    cases v with
    | infinity t => cases hb
    | notANumber => cases hb
    | zero t => exact rounds_of_canonical (u := .zero (s * t)) trivial rfl
    | finite t n d hn => exact rounds_of_canonical (u := .zero (s * t)) trivial rfl
  | finite s m e hm =>
    cases v with
    | infinity t => cases hb
    | notANumber => cases hb
    | zero t =>
      change Rounds (exact (.finite s m e hm) * 0) _
      rw [mul_zero]
      exact rounds_of_canonical (u := .zero (s * t)) trivial rfl
    | finite t n d hn => exact rounds_mul_finite hca hcb

theorem magnitude_le {s : Sign} {m n : ℕ} {e d : ℤ} {hm : 0 < m} {hn : 0 < n}
    (hm' : Canonical (.finite s m e hm)) (hn' : Canonical (.finite s n d hn))
    (h : e < d ∨ e = d ∧ m ≤ n) : (m : ℚ) * 2 ^ e ≤ n * 2 ^ d := by
  rcases h with hlt | ⟨rfl, hle⟩
  · have hfull : 2 ^ 52 ≤ n := by
      have hleast := hm'.2.1
      have hnormal := hn'.2.2.2
      omega
    have hroom : (m : ℚ) ≤ 2 ^ 53 := by exact_mod_cast hm'.1.le
    have hcast : (2 : ℚ) ^ 52 ≤ n := by exact_mod_cast hfull
    calc (m : ℚ) * 2 ^ e ≤ 2 ^ 53 * 2 ^ e := by gcongr
      _ = 2 ^ 52 * 2 ^ (e + 1) := by rw [zpow_add_one₀ two_ne_zero]; ring
      _ ≤ n * 2 ^ d := by
          gcongr
          · exact one_le_two
          · omega
  · gcongr

theorem exact_le_of_rank_le {u v : UnpackedFloat} (hu : Canonical u) (hv : Canonical v)
    (hfu : u.isFinite = true) (hfv : v.isFinite = true) (h : rank u ≤ rank v) :
    exact u ≤ exact v := by
  -- numbers of different signs are on different sides of zero, others go by their magnitudes
  cases u with
  | infinity s => cases hfu
  | notANumber => cases hfu
  | zero s =>
    cases v with
    | infinity t => cases hfv
    | notANumber => cases hfv
    | zero t => exact le_rfl
    | finite t n d hn =>
      cases t with
      | negative => simp [rank, Prod.Lex.toLex_le_toLex] at h
      | positive =>
        change (0 : ℚ) ≤ ((n : ℤ) : ℚ) * 2 ^ d
        positivity
  | finite s m e hm =>
    cases v with
    | infinity t => cases hfv
    | notANumber => cases hfv
    | zero t =>
      cases s with
      | positive => simp [rank, Prod.Lex.toLex_le_toLex] at h
      | negative =>
        simp only [exact, Sign.apply, Int.cast_neg, Int.cast_natCast, neg_mul, Left.neg_nonpos_iff]
        positivity
    | finite t n d hn =>
      cases s with
      | positive =>
        cases t with
        | negative => simp [rank, Prod.Lex.toLex_le_toLex] at h
        | positive =>
          simp only [rank, Prod.Lex.toLex_le_toLex, lt_irrefl, true_and, false_or,
            Nat.cast_le] at h
          simp only [exact, Sign.apply, Int.cast_natCast]
          exact magnitude_le hu hv h
      | negative =>
        cases t with
        | positive =>
          have hleft : (0 : ℚ) ≤ m * 2 ^ e := by positivity
          have hright : (0 : ℚ) ≤ n * 2 ^ d := by positivity
          simp only [exact, Sign.apply, Int.cast_neg, Int.cast_natCast, neg_mul]
          linarith
        | negative =>
          simp only [rank, Prod.Lex.toLex_le_toLex, lt_irrefl, true_and, false_or, neg_lt_neg_iff,
            neg_inj, neg_le_neg_iff, Nat.cast_le] at h
          simp only [exact, Sign.apply, Int.cast_neg, Int.cast_natCast, neg_mul, neg_le_neg_iff]
          exact magnitude_le hv hu (h.imp_right (And.imp_left Eq.symm))

theorem number_le_of_le {a b : Float} (ha : a.isFinite = true) (hb : b.isFinite = true)
    (h : a ≤ b) : number a ≤ number b :=
  exact_le_of_rank_le (canonical_unpack _) (canonical_unpack _) ha hb
    ((le_iff_rank (isNaN_of_isFinite ha) (isNaN_of_isFinite hb)).1 h)

theorem lt_of_number_lt {a b : Float} (ha : a.isFinite = true) (hb : b.isFinite = true)
    (h : number a < number b) : a < b := by
  by_contra hnot
  have hle := le_of_not_lt (isNaN_of_isFinite ha) (isNaN_of_isFinite hb) hnot
  exact h.not_ge (number_le_of_le hb ha hle)

section Rounds

variable {q : ℚ} {a b : Float}

theorem abs_number_le (a : Float) : |number a| ≤ greatest := abs_exact_le (canonical_unpack _)

theorem lt_of_rounds (h : Rounds q (unpacked b)) (ha : a.isFinite = true)
    (hlt : number a + slack q < q) : a < b := by
  generalize hb : unpacked b = u at h
  cases h with
  | near finite error =>
    rw [← hb] at finite error
    refine lt_of_number_lt ha finite ?_
    have hnear := (abs_sub_le_iff.1 error).2
    change q - number b ≤ slack q at hnear
    linarith
  | @beyond s hbeyond =>
    cases s with
    | positive => exact lt_positive_infinity ha hb
    | negative =>
      have hleast := (abs_le.1 (abs_number_le a)).1
      have hslack := slack_nonneg q
      have hbelow : greatest ≤ -q := by simpa [Sign.apply] using hbeyond
      linarith

theorem lt_of_rounds_below (h : Rounds q (unpacked b)) (ha : a.isFinite = true)
    (hlt : q + slack q < number a) : b < a := by
  have hneg : Rounds (-q) (unpacked (-b)) := by
    rw [unpacked_neg]
    exact h.neg
  refine neg_lt_iff_gt.1 (lt_of_rounds hneg ((isFinite_neg a).trans ha) ?_)
  rw [number_neg, slack, abs_neg]
  change -number a + slack q < -q
  linarith

theorem isFinite_of_rounds (h : Rounds q (unpacked b)) (hlt : |q| < greatest) :
    b.isFinite = true := by
  change (unpacked b).isFinite = true
  generalize unpacked b = u at h
  cases h with
  | near finite error => exact finite
  | @beyond s hbeyond => exact absurd (hbeyond.trans (apply_mul_le_abs s q)) hlt.not_ge

theorem abs_number_sub_le (h : Rounds q (unpacked b)) (hb : b.isFinite = true) :
    |number b - q| ≤ slack q := by
  change (unpacked b).isFinite = true at hb
  change |exact (unpacked b) - q| ≤ slack q
  generalize unpacked b = u at h hb ⊢
  cases h with
  | near finite error => exact error
  | beyond h => cases hb

end Rounds

theorem shiftRight_zeros (m i k : ℕ) :
    (⟨m * 2 ^ (i + k), false, false⟩ : ExtendedMantissa) >>> k = ⟨m * 2 ^ i, false, false⟩ := by
  induction k generalizing i with
  | zero => rfl
  | succ k ih =>
    have hnext := ih (i + 1)
    rw [add_right_comm] at hnext
    change ExtendedMantissa.shiftRightOne
      ((⟨m * 2 ^ (i + (k + 1)), false, false⟩ : ExtendedMantissa) >>> k) = _
    rw [← add_assoc, hnext, Nat.pow_succ, ← mul_assoc]
    simp [ExtendedMantissa.shiftRightOne]

theorem roundWithAccuracy_zeros (s : Sign) {m : ℕ} {e : ℤ} (hm : 0 < m)
    (h : Canonical (.finite s m e hm)) :
    roundWithAccuracy .binary64 s (m * 2 ^ 52) (e - 52) .exact = .finite s m e hm := by
  obtain ⟨hlt, hlow, -, hfull⟩ := h
  have hlog : (m * 2 ^ 52).log2 = m.log2 + 52 := by
    have hself := Nat.log2_self_le hm.ne'
    have habove : m < 2 ^ (m.log2 + 1) := Nat.lt_log2_self
    rw [Nat.log2_eq_iff (by positivity), Nat.add_right_comm, Nat.pow_add, Nat.pow_add]
    exact ⟨Nat.mul_le_mul_right _ hself, Nat.mul_lt_mul_of_pos_right habove (by decide)⟩
  have htarget : max (((m * 2 ^ 52).log2 : ℤ) + (e - 52) - 52) (-1074) = e := by
    have hbelow : m.log2 < 53 := (Nat.log2_lt hm.ne').2 hlt
    have hat : 2 ^ 52 ≤ m → 52 ≤ m.log2 := (Nat.le_log2 hm.ne').2
    omega
  have hshift : shiftToTargetExponent .binary64 (m * 2 ^ 52) (e - 52) .exact =
      (⟨m, false, false⟩, e) := by
    have hplaces : e - (e - 52) = (52 : ℕ) := by omega
    simp only [shiftToTargetExponent, shiftToExponent, targetExponent_eq, htarget, hplaces,
      Int.toNat_natCast]
    rw [← hplaces, add_sub_cancel]
    exact congrArg (·, e) ((shiftRight_zeros m 0 52).trans (by rw [pow_zero, mul_one]))
  have hrounded : (⟨m, false, false⟩ : ExtendedMantissa).roundedMantissa = m := rfl
  rw [roundWithAccuracy, hshift]
  dsimp only
  rw [hrounded, shiftToTargetExponent_of_lt hlt hlow]
  simp only [hm.ne', dite_false]

theorem unpacked_mul_one (a : Float) : unpacked (a * 1) = unpacked a := by
  have hcanonical : Canonical (unpacked a) := canonical_unpack _
  change UnpackedFloat.unpack .binary64 (UnpackedFloat.pack .binary64
    (UnpackedFloat.mul .binary64 (unpacked a) (unpacked 1))) = _
  generalize unpacked a = u at hcanonical ⊢
  have hone : unpacked 1 = .finite .positive (2 ^ 52) (-52) (by decide) := rfl
  rw [hone]
  cases u with
  | notANumber => rfl
  | infinity s => cases s <;> rfl
  | zero s => cases s <;> rfl
  | finite s m e hm =>
    have hsign : s * .positive = s := by cases s <;> rfl
    change UnpackedFloat.unpack .binary64 (UnpackedFloat.pack .binary64
      (roundWithAccuracy .binary64 (s * .positive) (m * 2 ^ 52) (e - 52) .exact)) = _
    rw [hsign, roundWithAccuracy_zeros s hm hcanonical, unpack_pack hcanonical]

theorem zeroOrNaN_neg_mul_one_add (a : Float) : ZeroOrNaN (-a * 1 + a) := by
  change Void (UnpackedFloat.unpack .binary64 (UnpackedFloat.pack .binary64
    (UnpackedFloat.add .binary64 (unpacked (-a * 1)) (unpacked a))))
  refine Void.repack ?_
  rw [unpacked_mul_one, unpacked_neg]
  cases unpacked a with
  | notANumber => exact .notANumber
  | infinity s => cases s <;> exact .notANumber
  | zero s => cases s <;> exact .zero _
  | finite s m e hm =>
    have hsign (k : ℤ) : (-s).apply k = -s.apply k := by cases s <;> simp [Sign.apply]
    simp only [UnpackedFloat.neg, UnpackedFloat.add, hsign, neg_add_cancel]
    exact .zero _

end RootFinding.Binary64
