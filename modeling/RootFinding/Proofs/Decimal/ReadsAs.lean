import RootFinding.Proofs.Decimal.Parts

/-!
# The shortest decimal reads back

The numbers that read as a given binary64 number lie between the middles of the gaps to its two
neighbours, and a middle itself reads as the neighbour with the even mantissa. So no two binary64
numbers share a decimal. The shortest decimal of a number is found between its two middles, and
that is enough to tell the number from all others.
-/

namespace RootFinding.Decimal

def Scaled.value (s : Scaled) : ℚ := s.coefficient * 10 ^ s.place

/-- The quarters of the last binary place from a number to the middle of the gap below it. -/
def quartersBelow (m : Nat) (q : Int) : Nat := if m = fieldUnit ∧ -1074 < q then 1 else 2

def lowEnd (m : Nat) (q : Int) : ℚ := (4 * m - quartersBelow m q : Nat) * 2 ^ (q - 2)

def highEnd (m : Nat) (q : Int) : ℚ := (4 * m + 2 : Nat) * 2 ^ (q - 2)

structure ReadsAs (m : Nat) (q : Int) (v : ℚ) : Prop where
  low : lowEnd m q ≤ v
  high : v ≤ highEnd m q
  odd : m % 2 = 1 → lowEnd m q < v ∧ v < highEnd m q

section ReadsAs

variable {m m' : Nat} {q q' : Int} {v : ℚ}

theorem quartersBelow_pos (m : Nat) (q : Int) : 0 < quartersBelow m q := by
  unfold quartersBelow
  split <;> decide

theorem quartersBelow_le (m : Nat) (q : Int) : quartersBelow m q ≤ 2 := by
  unfold quartersBelow
  split <;> decide

theorem ReadsAs.pos (h : ReadsAs m q v) (hm : 0 < m) : 0 < v := by
  have hquarters := quartersBelow_le m q
  have hlow : 0 < 4 * m - quartersBelow m q := by omega
  exact lt_of_lt_of_le (mul_pos (Nat.cast_pos.2 hlow) (zpow_pos two_pos _)) h.low

theorem double_le_lowEnd (m' : Nat) (h : q < q') :
    ((2 * (4 * m' - quartersBelow m' q') : Nat) : ℚ) * 2 ^ (q - 2) ≤ lowEnd m' q' := by
  have hplace : (2 : ℚ) ^ (q - 2) * 2 ≤ 2 ^ (q' - 2) := by
    rw [← zpow_add_one₀ two_ne_zero]
    exact zpow_le_zpow_right₀ one_le_two (by omega)
  rw [lowEnd, Nat.cast_mul, Nat.cast_ofNat, mul_comm (2 : ℚ), mul_assoc, mul_comm (2 : ℚ)]
  exact mul_le_mul_of_nonneg_left hplace (Nat.cast_nonneg _)

/-- Of two numbers the lesser reads up to where the greater starts, and a middle between them that
belongs to neither of the others is left to an even mantissa. -/
theorem ends_apart (hm : Canonical m q) (hm' : Canonical m' q')
    (h : q < q' ∨ (q = q' ∧ m < m')) :
    highEnd m q < lowEnd m' q' ∨
      (highEnd m q ≤ lowEnd m' q' ∧ (m % 2 = 1 ∨ m' % 2 = 1)) := by
  have hplace : (0 : ℚ) < 2 ^ (q - 2) := zpow_pos two_pos _
  rcases h with hlt | ⟨rfl, hlt⟩
  · have hnormal : 2 ^ 52 ≤ m' := hm'.normal.resolve_right (by have := hm.exponent_ge; omega)
    have hquarters : 4 * m + 2 < 2 * (4 * m' - quartersBelow m' q') ∨
        (4 * m + 2 ≤ 2 * (4 * m' - quartersBelow m' q') ∧ m % 2 = 1) := by
      have hbound := hm.mantissa_lt
      by_cases hleast : m' = 2 ^ 52
      · have hone : quartersBelow m' q' = 1 :=
          if_pos ⟨hleast, lt_of_le_of_lt hm.exponent_ge hlt⟩
        omega
      · have htwo := quartersBelow_le m' q'
        omega
    have hdouble := double_le_lowEnd m' hlt
    refine hquarters.imp (fun hless => ?_) fun hless => ⟨?_, Or.inl hless.2⟩
    · exact lt_of_lt_of_le (mul_lt_mul_of_pos_right (Nat.cast_lt.2 hless) hplace) hdouble
    · exact le_trans (mul_le_mul_of_nonneg_right (Nat.cast_le.2 hless.1) hplace.le) hdouble
  · have htwo := quartersBelow_le m' q
    have hquarters : 4 * m + 2 < 4 * m' - quartersBelow m' q ∨
        (4 * m + 2 ≤ 4 * m' - quartersBelow m' q ∧ (m % 2 = 1 ∨ m' % 2 = 1)) := by omega
    refine hquarters.imp (fun hless => ?_) fun hless => ⟨?_, hless.2⟩
    · exact mul_lt_mul_of_pos_right (Nat.cast_lt.2 hless) hplace
    · exact mul_le_mul_of_nonneg_right (Nat.cast_le.2 hless.1) hplace.le

theorem ReadsAs.not_less (h : ReadsAs m q v) (h' : ReadsAs m' q' v) (hm : Canonical m q)
    (hm' : Canonical m' q') : ¬ (q < q' ∨ (q = q' ∧ m < m')) := by
  intro hlt
  rcases ends_apart hm hm' hlt with hless | ⟨hle, hodd | hodd⟩
  · exact absurd (le_trans h'.low h.high) (not_le.2 hless)
  · exact absurd (lt_of_lt_of_le (h.odd hodd).2 hle) (not_lt.2 h'.low)
  · exact absurd (lt_of_le_of_lt hle (h'.odd hodd).1) (not_lt.2 h.high)

theorem ReadsAs.unique (h : ReadsAs m q v) (h' : ReadsAs m' q' v) (hm : Canonical m q)
    (hm' : Canonical m' q') : m = m' ∧ q = q' := by
  have hbelow := h.not_less h' hm hm'
  have habove := h'.not_less h hm' hm
  omega

theorem zpow_mul_toNat {b : ℚ} (hb : b ≠ 0) (i : Int) : b ^ i * b ^ (-i).toNat = b ^ i.toNat := by
  rw [← zpow_natCast, ← zpow_natCast, ← zpow_add₀ hb]
  congr 1
  omega

theorem tenPower_eq (n : Nat) : tenPower n = 10 ^ n := rfl

def commonDen (q place : Int) : ℚ := 2 ^ (2 - q).toNat * 10 ^ (-place).toNat

theorem commonDen_pos (q place : Int) : 0 < commonDen q place :=
  mul_pos (pow_pos two_pos _) (pow_pos (by norm_num) _)

theorem cast_end (a : Nat) (q place : Int) :
    ((a * (1 <<< (q - 2).toNat) * tenPower (-place).toNat : Nat) : ℚ) =
      a * 2 ^ (q - 2) * commonDen q place := by
  have htwo := zpow_mul_toNat (two_ne_zero (α := ℚ)) (q - 2)
  rw [neg_sub] at htwo
  rw [Nat.one_shiftLeft, tenPower_eq, commonDen]
  push_cast
  rw [← htwo]
  ring

theorem cast_point (s : Scaled) (q : Int) :
    ((s.coefficient * ((1 <<< (2 - q).toNat) * tenPower s.place.toNat) : Nat) : ℚ) =
      s.value * commonDen q s.place := by
  have hten := zpow_mul_toNat (show (10 : ℚ) ≠ 0 by norm_num) s.place
  rw [Nat.one_shiftLeft, tenPower_eq, Scaled.value, commonDen]
  push_cast
  rw [← hten]
  ring

theorem readsAs_of_contains {s : Scaled} (h : (Interval.around m q).contains s = true) :
    ReadsAs m q s.value := by
  have hpos := commonDen_pos q s.place
  have hlow : (((Interval.around m q).low * tenPower (-s.place).toNat : Nat) : ℚ) =
      lowEnd m q * commonDen q s.place := cast_end (4 * m - quartersBelow m q) q s.place
  have hhigh : (((Interval.around m q).high * tenPower (-s.place).toNat : Nat) : ℚ) =
      highEnd m q * commonDen q s.place := cast_end (4 * m + 2) q s.place
  have hpoint : ((s.coefficient * ((Interval.around m q).den * tenPower s.place.toNat) : Nat) : ℚ) =
      s.value * commonDen q s.place := cast_point s q
  unfold Interval.contains at h
  by_cases heven : m % 2 = 0
  · have hclosed : (Interval.around m q).closed = true := decide_eq_true heven
    rw [if_pos hclosed, decide_eq_true_eq, ← Nat.cast_le (α := ℚ), ← Nat.cast_le (α := ℚ), hlow,
      hhigh, hpoint, mul_le_mul_iff_left₀ hpos, mul_le_mul_iff_left₀ hpos] at h
    exact ⟨h.1, h.2, fun hodd => absurd heven (by omega)⟩
  · have hopen : ¬ (Interval.around m q).closed = true := by
      rw [show (Interval.around m q).closed = decide (m % 2 = 0) from rfl, decide_eq_true_eq]
      exact heven
    rw [if_neg hopen, decide_eq_true_eq, ← Nat.cast_lt (α := ℚ), ← Nat.cast_lt (α := ℚ), hlow,
      hhigh, hpoint, mul_lt_mul_iff_left₀ hpos, mul_lt_mul_iff_left₀ hpos] at h
    exact ⟨h.1.le, h.2.le, fun _ => h⟩

theorem exact_value (m : Nat) (q : Int) : (exact m q).value = m * 2 ^ q := by
  unfold exact Scaled.value
  split
  · next hq =>
    dsimp only
    rw [Nat.shiftLeft_eq, zpow_zero, mul_one, Nat.cast_mul, Nat.cast_pow, Nat.cast_ofNat,
      ← zpow_natCast, Int.toNat_of_nonneg hq]
  · next hq =>
    have hten : (10 : ℚ) ^ q = 5 ^ q * 2 ^ q := by
      rw [← mul_zpow]
      norm_num
    have hfive : (5 : ℚ) ^ (-q).toNat * 5 ^ q = 1 := by
      rw [← zpow_natCast, Int.toNat_of_nonneg (by omega), ← zpow_add₀ (by norm_num), neg_add_cancel,
        zpow_zero]
    have hcast : ((m * Nat.pow 5 (-q).toNat : Nat) : ℚ) = m * 5 ^ (-q).toNat := by
      rw [show Nat.pow 5 (-q).toNat = 5 ^ (-q).toNat from rfl]
      push_cast
      rfl
    dsimp only
    rw [hcast, hten, mul_assoc, ← mul_assoc (5 ^ _), hfive, one_mul]

theorem readsAs_exact (hm : 0 < m) : ReadsAs m q (exact m q).value := by
  have hplace : (0 : ℚ) < 2 ^ (q - 2) := zpow_pos two_pos _
  have hvalue : (exact m q).value = (4 * m : Nat) * 2 ^ (q - 2) := by
    rw [exact_value, zpow_sub₀ two_ne_zero]
    push_cast
    ring
  have hquarters := quartersBelow_pos m q
  have hlow : lowEnd m q < (exact m q).value := by
    rw [hvalue]
    exact mul_lt_mul_of_pos_right (Nat.cast_lt.2 (by omega)) hplace
  have hhigh : (exact m q).value < highEnd m q := by
    rw [hvalue]
    exact mul_lt_mul_of_pos_right (Nat.cast_lt.2 (by omega)) hplace
  exact ⟨hlow.le, hhigh.le, fun _ => ⟨hlow, hhigh⟩⟩

theorem readsAs_shortest (hm : 0 < m) : ReadsAs m q (shortest m q).value := by
  unfold shortest
  dsimp only
  cases hfound : (List.range 17).findSome? fun n : Nat =>
      (Interval.around m q).onGrid? ((Ratio.dyadic m q).leadingPlace - n) with
  | none => exact readsAs_exact hm
  | some s =>
    obtain ⟨n, -, hs⟩ := List.exists_of_findSome?_eq_some hfound
    exact readsAs_of_contains (Interval.contains_of_onGrid? hs)

end ReadsAs

end RootFinding.Decimal
