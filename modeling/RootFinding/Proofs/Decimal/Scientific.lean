import RootFinding.Proofs.Decimal.NumberText

/-!
# The scientific text of a number

The leading place of a ratio is found by counting digits, in the ratio itself or in its reciprocal,
and on the grid that starts there the ratio lies between two powers of ten. Rounded to that grid it
keeps the number of its digits or becomes the next power of ten, which one digit less shows as well.
So a scientific text has one digit before the point, as many behind it as was asked for, and differs
from the number by half a unit of its last digit at most. A binary64 number has an exponent of three
digits at most, which bounds the length of the text.
-/

namespace RootFinding.Decimal

def Ratio.value (r : Ratio) : ℚ := r.num / r.den

section Ratio

variable {r : Ratio}

theorem natural_bounds {n : Nat} (hn : 0 < n) :
    10 ^ ((natural n).length - 1) ≤ n ∧ n < 10 ^ (natural n).length := by
  have hpos : 0 < (natural n).length := Nat.length_toDigits_pos
  refine ⟨?_, (Nat.length_toDigits_le_iff (by decide) hpos).1 le_rfl⟩
  rcases Nat.eq_zero_or_pos ((natural n).length - 1) with hone | hmore
  · rw [hone]
    exact hn
  · by_contra hlt
    have hshort : (natural n).length ≤ (natural n).length - 1 :=
      (Nat.length_toDigits_le_iff (by decide) hmore).2 (not_le.1 hlt)
    omega

theorem Ratio.zpow_le_value_iff (hden : 0 < r.den) (i : Int) :
    (10 : ℚ) ^ i ≤ r.value ↔ r.den * 10 ^ i.toNat ≤ r.num * 10 ^ (-i).toNat := by
  have hscale : (0 : ℚ) < 10 ^ (-i).toNat := pow_pos (by norm_num) _
  have hten := zpow_mul_toNat (show (10 : ℚ) ≠ 0 by norm_num) i
  rw [value, le_div_iff₀ (Nat.cast_pos.2 hden), ← mul_le_mul_iff_left₀ hscale, mul_right_comm, hten,
    mul_comm, ← Nat.cast_le (α := ℚ)]
  push_cast
  rfl

theorem Ratio.value_lt_zpow_iff (hden : 0 < r.den) (i : Int) :
    r.value < (10 : ℚ) ^ i ↔ r.num * 10 ^ (-i).toNat < r.den * 10 ^ i.toNat := by
  rw [← not_le, zpow_le_value_iff hden, not_le]

theorem quotient_bounds {a b : Nat} (hb : 0 < b) (hle : b ≤ a) :
    b * 10 ^ ((natural (a / b)).length - 1) ≤ a ∧ a < b * 10 ^ (natural (a / b)).length := by
  obtain ⟨hlow, hhigh⟩ := natural_bounds (Nat.div_pos hle hb)
  constructor
  · calc b * 10 ^ ((natural (a / b)).length - 1) ≤ b * (a / b) := Nat.mul_le_mul_left _ hlow
      _ ≤ a := Nat.mul_div_le _ _
  · rw [mul_comm]
    exact (Nat.div_lt_iff_lt_mul hb).1 hhigh

theorem Ratio.leadingPlace_bounds_of_le (hden : 0 < r.den) (hle : r.den ≤ r.num) :
    (10 : ℚ) ^ r.leadingPlace ≤ r.value ∧ r.value < 10 ^ (r.leadingPlace + 1) := by
  obtain ⟨hbelow, habove⟩ := quotient_bounds hden hle
  have hplace : r.leadingPlace = ((natural (r.num / r.den)).length : Int) - 1 := if_pos hle
  have hlength : 0 < (natural (r.num / r.den)).length := Nat.length_toDigits_pos
  generalize (natural (r.num / r.den)).length = length at hbelow habove hplace hlength
  have hup : r.leadingPlace.toNat = length - 1 ∧ (-r.leadingPlace).toNat = 0 := by omega
  have hnext : (r.leadingPlace + 1).toNat = length ∧ (-(r.leadingPlace + 1)).toNat = 0 := by omega
  rw [zpow_le_value_iff hden, value_lt_zpow_iff hden, hup.1, hup.2, hnext.1, hnext.2, pow_zero,
    mul_one]
  exact ⟨hbelow, habove⟩

/-- Below one it is counted in the reciprocal, where a power of ten has one digit more. -/
theorem Ratio.leadingPlace_bounds_of_lt (hnum : 0 < r.num) (hden : 0 < r.den)
    (hlt : r.num < r.den) :
    (10 : ℚ) ^ r.leadingPlace ≤ r.value ∧ r.value < 10 ^ (r.leadingPlace + 1) := by
  obtain ⟨hbelow, habove⟩ := quotient_bounds hnum hlt.le
  have hplace : r.leadingPlace =
      if r.den = r.num * 10 ^ ((natural (r.den / r.num)).length - 1) then
        1 - ((natural (r.den / r.num)).length : Int)
      else -((natural (r.den / r.num)).length : Int) := if_neg hlt.not_ge
  have hlength : 0 < (natural (r.den / r.num)).length := Nat.length_toDigits_pos
  generalize (natural (r.den / r.num)).length = length at hbelow habove hplace hlength
  rw [zpow_le_value_iff hden, value_lt_zpow_iff hden]
  by_cases hpower : r.den = r.num * 10 ^ (length - 1)
  · rw [if_pos hpower] at hplace
    have hdown : r.leadingPlace.toNat = 0 ∧ (-r.leadingPlace).toNat = length - 1 := by omega
    have hless : (-(r.leadingPlace + 1)).toNat < length - 1 + (r.leadingPlace + 1).toNat := by omega
    rw [hdown.1, hdown.2, pow_zero, mul_one]
    refine ⟨hpower.le, ?_⟩
    calc r.num * 10 ^ (-(r.leadingPlace + 1)).toNat
        < r.num * 10 ^ (length - 1 + (r.leadingPlace + 1).toNat) :=
          Nat.mul_lt_mul_of_pos_left (Nat.pow_lt_pow_right (by decide) hless) hnum
      _ = r.den * 10 ^ (r.leadingPlace + 1).toNat := by rw [pow_add, ← mul_assoc, ← hpower]
  · rw [if_neg hpower] at hplace
    have hdown : r.leadingPlace.toNat = 0 ∧ (-r.leadingPlace).toNat = length := by omega
    have hnext : (r.leadingPlace + 1).toNat = 0 ∧ (-(r.leadingPlace + 1)).toNat = length - 1 := by
      omega
    rw [hdown.1, hdown.2, hnext.1, hnext.2, pow_zero, mul_one]
    exact ⟨habove.le, lt_of_le_of_ne hbelow fun heq => hpower heq.symm⟩

theorem Ratio.leadingPlace_bounds (hnum : 0 < r.num) (hden : 0 < r.den) :
    (10 : ℚ) ^ r.leadingPlace ≤ r.value ∧ r.value < 10 ^ (r.leadingPlace + 1) := by
  rcases le_or_gt r.den r.num with hle | hlt
  · exact leadingPlace_bounds_of_le hden hle
  · exact leadingPlace_bounds_of_lt hnum hden hlt

theorem Ratio.value_inUnits (hden : 0 < r.den) (place : Int) :
    (r.inUnits place).value * 10 ^ place = r.value := by
  have hten := zpow_mul_toNat (show (10 : ℚ) ≠ 0 by norm_num) place
  have hscale : (0 : ℚ) < 10 ^ (-place).toNat := pow_pos (by norm_num) _
  have hplace : (0 : ℚ) < 10 ^ place := zpow_pos (by norm_num) _
  have hden' : (0 : ℚ) < r.den := Nat.cast_pos.2 hden
  rw [value, value, inUnits, tenPower_eq, tenPower_eq, Nat.cast_mul, Nat.cast_mul, Nat.cast_pow,
    Nat.cast_pow, Nat.cast_ofNat, ← hten]
  field_simp

theorem Ratio.round_bounds (hden : 0 < r.den) {a b : Nat} (ha : (a : ℚ) ≤ r.value)
    (hb : r.value < b) : a ≤ r.round ∧ r.round ≤ b := by
  have hden' : (0 : ℚ) < r.den := Nat.cast_pos.2 hden
  rw [value, le_div_iff₀ hden'] at ha
  rw [value, div_lt_iff₀ hden'] at hb
  have hlow : a ≤ r.num / r.den := (Nat.le_div_iff_mul_le hden).2 (by exact_mod_cast ha)
  have hhigh : r.num / r.den < b := (Nat.div_lt_iff_lt_mul hden).2 (by exact_mod_cast hb)
  rcases r.round_eq with hround | hround <;> omega

theorem Ratio.abs_round_sub_le (hden : 0 < r.den) : |(r.round : ℚ) - r.value| ≤ 1 / 2 := by
  obtain ⟨hbelow, habove⟩ := Ratio.round_near hden
  have hden' : (0 : ℚ) < r.den := Nat.cast_pos.2 hden
  have hbelow' : (2 : ℚ) * r.num ≤ 2 * (r.round * r.den) + r.den := by exact_mod_cast hbelow
  have habove' : (2 : ℚ) * (r.round * r.den) ≤ 2 * r.num + r.den := by exact_mod_cast habove
  have hvalue : r.value * r.den = r.num := div_mul_cancel₀ _ hden'.ne'
  rw [abs_sub_le_iff]
  constructor
  · refine le_of_mul_le_mul_right ?_ hden'
    rw [sub_mul, hvalue]
    linarith only [habove']
  · refine le_of_mul_le_mul_right ?_ hden'
    rw [sub_mul, hvalue]
    linarith only [hbelow']

theorem Ratio.even_round (hden : 0 < r.den) (h : |(r.round : ℚ) - r.value| = 1 / 2) :
    r.round % 2 = 0 := by
  have hden' : (0 : ℚ) < r.den := Nat.cast_pos.2 hden
  have hvalue : r.value * r.den = r.num := div_mul_cancel₀ _ hden'.ne'
  have hends : 2 * (r.round * r.den) = 2 * r.num + r.den ∨
      2 * (r.round * r.den) + r.den = 2 * r.num := by
    rw [← Nat.cast_inj (R := ℚ), ← Nat.cast_inj (R := ℚ)]
    push_cast
    rw [← hvalue]
    rcases (abs_eq (by norm_num)).1 h with habove | hbelow
    · left
      linear_combination 2 * (r.den : ℚ) * habove
    · right
      linear_combination 2 * (r.den : ℚ) * hbelow
  have hdiv := Nat.div_add_mod r.num r.den
  have hcomm : r.num / r.den * r.den = r.den * (r.num / r.den) := Nat.mul_comm _ _
  have hmod := Nat.mod_lt r.num hden
  unfold round at hends ⊢
  dsimp only at hends ⊢
  split at hends
  · next hup =>
    rw [if_pos hup]
    rw [Nat.add_mul, Nat.one_mul] at hends
    omega
  · next hdown =>
    rw [if_neg hdown]
    omega

end Ratio

/-- A decimal of one digit more than stated is nearest to a number, the even one of two. -/
structure Nearest (places : Nat) (s : Scaled) (v : ℚ) : Prop where
  full : 10 ^ places ≤ s.coefficient
  fits : s.coefficient < 10 ^ (places + 1)
  near : |s.value - v| ≤ 10 ^ s.place / 2
  even : |s.value - v| = 10 ^ s.place / 2 → s.coefficient % 2 = 0

theorem ten_zpow_pos (i : Int) : (0 : ℚ) < 10 ^ i := zpow_pos (by norm_num) i

theorem ten_zpow_add (places : Nat) (place : Int) :
    (10 : ℚ) ^ (place + places) = 10 ^ places * 10 ^ place := by
  rw [zpow_add₀ (by norm_num), zpow_natCast, mul_comm]

theorem abs_scaled_sub (a b : ℚ) (place : Int) :
    |a * 10 ^ place - b * 10 ^ place| = |a - b| * 10 ^ place := by
  rw [← sub_mul, abs_mul, abs_of_pos (ten_zpow_pos place)]

section Nearest

variable {r : Ratio}

theorem Ratio.inUnits_bounds (hnum : 0 < r.num) (hden : 0 < r.den) (places : Nat) :
    ((10 ^ places : Nat) : ℚ) ≤ (r.inUnits (r.leadingPlace - places)).value ∧
      (r.inUnits (r.leadingPlace - places)).value < ((10 ^ (places + 1) : Nat) : ℚ) := by
  obtain ⟨hlow, hhigh⟩ := leadingPlace_bounds hnum hden
  have hpos := ten_zpow_pos (r.leadingPlace - places)
  have hlead := ten_zpow_add places (r.leadingPlace - places)
  have hnext := ten_zpow_add (places + 1) (r.leadingPlace - places)
  rw [sub_add_cancel] at hlead
  rw [Nat.cast_succ, ← add_assoc, sub_add_cancel] at hnext
  rw [← value_inUnits hden (r.leadingPlace - places)] at hlow hhigh
  rw [hlead] at hlow
  rw [hnext] at hhigh
  push_cast
  exact ⟨le_of_mul_le_mul_right hlow hpos, lt_of_mul_lt_mul_right hhigh hpos.le⟩

theorem nearest_toSignificant (hnum : 0 < r.num) (hden : 0 < r.den) (places : Nat) :
    Nearest places (r.toSignificant places) r.value := by
  have hunits : 0 < (r.inUnits (r.leadingPlace - places)).den :=
    Ratio.inUnits_den_pos hden _
  obtain ⟨hlow, hhigh⟩ := Ratio.inUnits_bounds hnum hden places
  obtain ⟨hfull, hfits⟩ := Ratio.round_bounds hunits hlow hhigh
  have hnear := Ratio.abs_round_sub_le hunits
  have heven := Ratio.even_round hunits
  rw [← Ratio.value_inUnits hden (r.leadingPlace - places)]
  unfold Ratio.toSignificant
  dsimp only
  rw [tenPower_eq, tenPower_eq]
  generalize r.inUnits (r.leadingPlace - places) = g at hnear heven hfull hfits
  generalize r.leadingPlace - places = place
  have hpos := ten_zpow_pos place
  have hscaled : |(g.round : ℚ) - g.value| * 10 ^ place ≤ 10 ^ place / 2 := by
    rw [div_eq_mul_one_div, mul_comm]
    exact mul_le_mul_of_nonneg_left hnear hpos.le
  split
  · next hcarry =>
    -- the next power of ten is off by half a unit of the old place, less than half of the new one
    have hvalue : Scaled.value ⟨10 ^ places, place + 1⟩ = g.round * 10 ^ place := by
      rw [Scaled.value, hcarry, zpow_add_one₀ (by norm_num)]
      push_cast
      ring
    have herror : |Scaled.value ⟨10 ^ places, place + 1⟩ - g.value * 10 ^ place| <
        10 ^ (place + 1) / 2 := by
      rw [hvalue, abs_scaled_sub, zpow_add_one₀ (by norm_num)]
      linarith only [hscaled, hpos]
    exact ⟨le_rfl, Nat.pow_lt_pow_right (by decide) (Nat.lt_succ_self _), herror.le,
      fun htie => absurd htie herror.ne⟩
  · next hkept =>
    have herror : |Scaled.value ⟨g.round, place⟩ - g.value * 10 ^ place| =
        |g.round - g.value| * 10 ^ place := abs_scaled_sub _ _ place
    refine ⟨hfull, lt_of_le_of_ne hfits hkept, herror.trans_le hscaled, fun htie => heven ?_⟩
    rw [herror, div_eq_mul_one_div, mul_comm] at htie
    exact mul_left_cancel₀ hpos.ne' htie

end Nearest

def exponential (digits : List Char) (exponent : Int) : List Char :=
  digits.take 1 ++ afterPoint (digits.drop 1) ++ 'e' :: integer exponent

def minus (negative : Bool) : List Char := if negative then ['-'] else []

inductive Shows (places : Nat) : Parts → List Char → Prop
  | nan : Shows places .nan ['N', 'a', 'N']
  | infinite (negative : Bool) :
      Shows places (.infinite negative) (minus negative ++ ['i', 'n', 'f'])
  | zero (negative : Bool) (q : Int) :
      Shows places (.finite negative 0 q)
        (minus negative ++ exponential (List.replicate (places + 1) '0') 0)
  | finite (negative : Bool) {m : Nat} {q : Int} {s : Scaled} (hm : 0 < m)
      (h : Nearest places s (m * 2 ^ q)) :
      Shows places (.finite negative m q)
        (minus negative ++ exponential (natural s.coefficient) (s.place + places))

section Text

variable {places : Nat} {m : Nat} {q : Int} {s : Scaled}

theorem length_natural_of_nearest {v : ℚ} (h : Nearest places s v) :
    (natural s.coefficient).length = places + 1 := by
  have hpos : 0 < s.coefficient := lt_of_lt_of_le (Nat.pow_pos (by decide)) h.full
  have hupper : (natural s.coefficient).length ≤ places + 1 :=
    (Nat.length_toDigits_le_iff (by decide) (Nat.succ_pos _)).2 h.fits
  have hlower : places < (natural s.coefficient).length := by
    refine (Nat.pow_lt_pow_iff_right (by decide : 1 < 10)).1 ?_
    exact lt_of_le_of_lt h.full (natural_bounds hpos).2
  omega

theorem padded_of_length {length n : Nat} (h : (natural n).length = length) :
    padded length n = natural n := by
  rw [padded, h, Nat.sub_self, List.replicate_zero, List.nil_append]

theorem value_dyadic (m : Nat) (q : Int) : (Ratio.dyadic m q).value = m * 2 ^ q := by
  have htwo := zpow_mul_toNat (two_ne_zero (α := ℚ)) q
  have hscale : (0 : ℚ) < 2 ^ (-q).toNat := pow_pos two_pos _
  rw [Ratio.value, Ratio.dyadic, Nat.shiftLeft_eq, Nat.one_shiftLeft, div_eq_iff (by positivity)]
  push_cast
  rw [mul_assoc, htwo]

theorem shows_scientific (places : Nat) (x : Float) :
    Shows places (parts x) (scientific places x) := by
  unfold scientific
  cases parts x with
  | nan => exact .nan
  | infinite negative => exact .infinite negative
  | finite negative m q =>
    rcases Nat.eq_zero_or_pos m with rfl | hm
    · have hplace : -(places : Int) + places = 0 := neg_add_cancel _
      have hdigits : padded (places + 1) 0 = List.replicate (places + 1) '0' := by
        rw [padded, show natural 0 = ['0'] from rfl, List.length_singleton, Nat.add_sub_cancel,
          List.replicate_succ']
      have hzero : Shows places _ _ := .zero negative q
      rw [← hplace, ← hdigits] at hzero
      exact hzero
    · have hnum : 0 < (Ratio.dyadic m q).num := by
        rw [Ratio.dyadic, Nat.shiftLeft_eq]
        exact Nat.mul_pos hm (Nat.two_pow_pos _)
      have hnearest := nearest_toSignificant hnum (Ratio.dyadic_den_pos m q) places
      rw [value_dyadic] at hnearest
      have hdigits := padded_of_length (length_natural_of_nearest hnearest)
      have hfinite := Shows.finite negative hm hnearest
      rw [← hdigits] at hfinite
      rw [signed, significant, if_neg hm.ne']
      exact hfinite

theorem exponential_ne_nil (digits : List Char) (exponent : Int) :
    exponential digits exponent ≠ [] :=
  List.append_ne_nil_of_right_ne_nil _ (List.cons_ne_nil _ _)

theorem Shows.ne_nil {p : Parts} {text : List Char} (h : Shows places p text) : text ≠ [] := by
  cases h with
  | nan => exact List.cons_ne_nil _ _
  | infinite negative => exact List.append_ne_nil_of_right_ne_nil _ (List.cons_ne_nil _ _)
  | zero negative q => exact List.append_ne_nil_of_right_ne_nil _ (exponential_ne_nil _ _)
  | finite negative hm hnearest =>
    exact List.append_ne_nil_of_right_ne_nil _ (exponential_ne_nil _ _)

theorem two_mul_greatest_lt : (2 : ℚ) * (2 ^ (53 : Int) * 2 ^ (971 : Int)) < 10 ^ (309 : Int) := by
  have hpowers : 2 * (2 ^ 53 * 2 ^ 971) < 10 ^ 309 := by decide +kernel
  exact_mod_cast hpowers

theorem two_mul_lt_least : (10 : ℚ) ^ (-324 : Int) * 2 ≤ 2 ^ (-1074 : Int) := by
  have hpowers : 2 * 2 ^ 1074 ≤ 10 ^ 324 := by decide +kernel
  have hpowers' : (2 : ℚ) * 2 ^ (1074 : Int) ≤ 10 ^ (324 : Int) := by exact_mod_cast hpowers
  rw [zpow_neg, zpow_neg, inv_mul_eq_div, div_le_iff₀ (ten_zpow_pos _), inv_mul_eq_div,
    le_div_iff₀ (zpow_pos two_pos _)]
  exact hpowers'

theorem exponent_bounds (hm : 0 < m) (hm' : Canonical m q) (hq : q ≤ 971)
    (h : Nearest places s (m * 2 ^ q)) :
    -324 ≤ s.place + places ∧ s.place + places ≤ 308 := by
  have hunit : (10 : ℚ) ^ s.place ≤ 10 ^ (s.place + places) :=
    zpow_le_zpow_right₀ (by norm_num) (by omega)
  have hlow : (10 : ℚ) ^ (s.place + places) ≤ s.value := by
    rw [ten_zpow_add, Scaled.value]
    exact mul_le_mul_of_nonneg_right (by exact_mod_cast h.full) (ten_zpow_pos _).le
  have hhigh : s.value < (10 : ℚ) ^ (s.place + places + 1) := by
    rw [add_assoc, ← Nat.cast_succ, ten_zpow_add, Scaled.value]
    exact mul_lt_mul_of_pos_right (by exact_mod_cast h.fits) (ten_zpow_pos _)
  have hnext : (10 : ℚ) ^ (s.place + places + 1) = 10 ^ (s.place + places) * 10 :=
    zpow_add_one₀ (by norm_num) _
  have hpos := ten_zpow_pos (s.place + places)
  obtain ⟨hover, hunder⟩ := abs_sub_le_iff.1 h.near
  have hless : (10 : ℚ) ^ (s.place + places) < 10 ^ (309 : Int) :=
    calc (10 : ℚ) ^ (s.place + places) ≤ 2 * (m * 2 ^ q) := by linarith only [hlow, hover, hunit]
      _ ≤ 2 * (2 ^ (53 : Int) * 2 ^ (971 : Int)) := by
        refine mul_le_mul_of_nonneg_left (mul_le_mul ?_ ?_ ?_ ?_) zero_le_two
        · exact_mod_cast hm'.mantissa_lt.le
        · exact zpow_le_zpow_right₀ one_le_two hq
        · exact (zpow_pos two_pos _).le
        · exact (zpow_pos two_pos _).le
      _ < 10 ^ (309 : Int) := two_mul_greatest_lt
  have hmore : (10 : ℚ) ^ (-324 : Int) * 2 < 10 ^ (s.place + places + 1) * 2 :=
    calc (10 : ℚ) ^ (-324 : Int) * 2 ≤ 2 ^ (-1074 : Int) := two_mul_lt_least
      _ ≤ 2 ^ q := zpow_le_zpow_right₀ one_le_two hm'.exponent_ge
      _ ≤ m * 2 ^ q := le_mul_of_one_le_left (zpow_pos two_pos _).le (by exact_mod_cast hm)
      _ < 10 ^ (s.place + places + 1) * 2 := by
        linarith only [hhigh, hunder, hunit, hnext, hpos]
  have hless' := (zpow_lt_zpow_iff_right₀ (by norm_num)).1 hless
  have hmore' := (zpow_lt_zpow_iff_right₀ (by norm_num)).1
    (lt_of_mul_lt_mul_right hmore zero_le_two)
  omega

theorem length_integer_le {i : Int} (h : i.natAbs < 10 ^ 3) : (integer i).length ≤ 4 := by
  have hdigits : (natural i.natAbs).length ≤ 3 :=
    (Nat.length_toDigits_le_iff (by decide) (by decide)).2 h
  unfold integer
  split
  · exact Nat.succ_le_succ hdigits
  · exact Nat.le_succ_of_le hdigits

theorem length_exponential_le {digits : List Char} {exponent : Int}
    (hdigits : digits.length = places + 1) (h : exponent.natAbs < 10 ^ 3) :
    (exponential digits exponent).length ≤ places + 7 := by
  have hinteger := length_integer_le h
  have hpoint : (afterPoint (digits.drop 1)).length ≤ places + 1 := by
    have hfraction : (digits.drop 1).length = places := by rw [List.length_drop, hdigits]; rfl
    cases hrest : digits.drop 1 with
    | nil => exact Nat.zero_le _
    | cons c rest =>
      rw [hrest] at hfraction
      exact Nat.succ_le_succ hfraction.le
  simp only [exponential, List.length_append, List.length_take, List.length_cons]
  omega

theorem length_minus_le (negative : Bool) : (minus negative).length ≤ 1 := by
  cases negative <;> decide

theorem length_scientific_le (places : Nat) (x : Float) :
    (scientific places x).length ≤ places + 8 := by
  have hshows := shows_scientific places x
  generalize hparts : parts x = p at hshows
  generalize scientific places x = text at hshows
  cases hshows with
  | nan => exact Nat.le_add_left_of_le (by decide)
  | infinite negative => cases negative <;> exact Nat.le_add_left_of_le (by decide)
  | zero negative q =>
    have hsign := length_minus_le negative
    have hexponent : (0 : Int).natAbs < 10 ^ 3 := by decide
    have htext := length_exponential_le (List.length_replicate (n := places + 1) (a := '0'))
      hexponent
    rw [List.length_append]
    omega
  | @finite negative m q s hm hnearest =>
    have hsign := length_minus_le negative
    obtain ⟨hlow, hhigh⟩ := exponent_bounds hm (canonical_of_parts hparts)
      (exponent_le_of_parts hparts) hnearest
    have hexponent : (s.place + places).natAbs < 10 ^ 3 := by omega
    have htext := length_exponential_le (length_natural_of_nearest hnearest) hexponent
    rw [List.length_append]
    omega

/-- The negative number next to zero needs all of it. -/
example : scientific 6 (Float.ofBits 0x8000000000000001) = "-4.940656e-324".toList := by
  decide +kernel

end Text

end RootFinding.Decimal
