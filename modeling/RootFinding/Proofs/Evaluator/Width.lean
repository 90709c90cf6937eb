import RootFinding.Proofs.Binary64.Rounding
import RootFinding.Proofs.Evaluator.Differences
import RootFinding.Proofs.Newton.Refusal

/-!
# The width of a central difference

The step is more than `2 ^ -18` and less than `2 ^ -17` times the greater of one and the magnitude
of the component, even rounded. A rounding error is less than `2 ^ -50` times that. So the component
moved forward is above it and moved back below, and the distance of the two is never zero. Unless
the component is beyond `2 ^ 1023`, nothing overflows. An infinite component cannot be moved in its
own direction and gives NaN when moved in the other, as a NaN does, so the width is NaN; its column
is NaN as well, and the step is refused.
-/

namespace RootFinding.CentralDifference

open Binary64 Float.Model Float.Model.UnpackedFloat

def forward (x : Float) : Float := x + differenceStep x

def backward (x : Float) : Float := x - differenceStep x

section Finite

def scale (q : ℚ) : ℚ := max 1 |q|

theorem one_le_scale (q : ℚ) : 1 ≤ scale q := le_max_left _ _

theorem abs_le_scale (q : ℚ) : |q| ≤ scale q := le_max_right _ _

theorem number_larger {x : Float} (hx : x.isFinite = true) :
    (larger 1 x.abs).isFinite = true ∧ number (larger 1 x.abs) = scale (number x) := by
  have habs : x.abs.isFinite = true := (isFinite_abs x).trans hx
  rw [scale, ← number_abs, ← number_one]
  by_cases hlt : 1 < x.abs
  · rw [larger, if_pos hlt]
    exact ⟨habs, (max_eq_right (number_le_of_le (by decide) habs (le_of_lt hlt))).symm⟩
  · rw [larger, if_neg hlt]
    have hle : x.abs ≤ 1 := le_of_not_lt (by decide) (isNaN_of_isFinite habs) hlt
    exact ⟨by decide, (max_eq_left (number_le_of_le habs (by decide) hle)).symm⟩

theorem number_differenceScale :
    2 ^ (-18 : ℤ) + 2 ^ (-50 : ℤ) ≤ number differenceScale ∧
      number differenceScale ≤ 2 ^ (-17 : ℤ) - 2 ^ (-50 : ℤ) := by
  have hscale : unpacked differenceScale =
      .finite .positive 0x1965fea53d6e3d (-70) (by decide) := rfl
  rw [number, hscale]
  norm_num [exact, Sign.apply]

theorem scale_le_greatest (x : Float) : scale (number x) ≤ greatest := by
  have hone : (1 : ℚ) ≤ greatest :=
    one_le_mul_of_one_le_of_one_le (by norm_num) (one_le_zpow₀ one_le_two (by decide))
  exact max_le hone (abs_number_le x)

theorem differenceStep_bounds {x : Float} (hx : x.isFinite = true) :
    (differenceStep x).isFinite = true ∧
      scale (number x) * 2 ^ (-18 : ℤ) ≤ number (differenceStep x) ∧
      number (differenceStep x) ≤ scale (number x) * 2 ^ (-17 : ℤ) := by
  obtain ⟨hlarger, hnumber⟩ := number_larger hx
  obtain ⟨hlower, hupper⟩ := number_differenceScale
  have hgreatest := scale_le_greatest x
  have hone := one_le_scale (number x)
  have hrounds :
      Rounds (number differenceScale * scale (number x)) (unpacked (differenceStep x)) := by
    rw [← hnumber]
    exact rounds_mul (by decide) hlarger
  generalize scale (number x) = m at *
  generalize number differenceScale = c at *
  norm_num at hlower hupper
  have hpos : 0 ≤ c * m := mul_nonneg (by linarith) (by linarith)
  have hbelow : (2 ^ (-18 : ℤ) + 2 ^ (-50 : ℤ)) * m ≤ c * m := by norm_num; gcongr
  have habove : c * m ≤ (2 ^ (-17 : ℤ) - 2 ^ (-50 : ℤ)) * m := by norm_num; gcongr
  norm_num at hbelow habove
  have hslack := Binary64.slack_le (q := c * m) hone (by rw [abs_of_nonneg hpos]; linarith)
  have hfinite := isFinite_of_rounds hrounds (by rw [abs_of_nonneg hpos]; linarith)
  obtain ⟨hmost, hleast⟩ := abs_sub_le_iff.1 (abs_number_sub_le hrounds hfinite)
  norm_num at hslack ⊢
  exact ⟨hfinite, by linarith, by linarith⟩

/-- Where a step in either direction leads to, before it is rounded. -/
structure Reaches (x : Float) (q : ℚ) : Prop where
  far : scale (number x) * 2 ^ (-18 : ℤ) ≤ |q - number x|
  near : |q - number x| ≤ scale (number x) * 2 ^ (-17 : ℤ)

theorem Reaches.abs_le {x : Float} {q : ℚ} (h : Reaches x q) :
    |q| ≤ scale (number x) * (1 + 2 ^ (-17 : ℤ)) := by
  have hsplit : |q| ≤ |q - number x| + |number x| := by
    simpa using abs_add_le (q - number x) (number x)
  have hnumber := abs_le_scale (number x)
  have hnear := h.near
  rw [mul_add, mul_one]
  linarith

theorem Reaches.slack_le {x : Float} {q : ℚ} (h : Reaches x q) :
    slack q ≤ scale (number x) * 2 ^ (-50 : ℤ) := by
  refine Binary64.slack_le (one_le_scale _) (h.abs_le.trans ?_)
  have hone := one_le_scale (number x)
  norm_num
  linarith

theorem scale_le {q : ℚ} (h : |q| ≤ 2 ^ (1023 : ℤ)) : scale q ≤ 2 ^ (1023 : ℤ) :=
  max_le (one_le_zpow₀ one_le_two (by decide)) h

theorem mul_lt_greatest {m c : ℚ} (hm : m ≤ 2 ^ (1023 : ℤ)) (hc : c ≤ 1 + 2 ^ (-17 : ℤ))
    (hpos : 0 ≤ c) : m * c < greatest := by
  have hsplit : (2 : ℚ) ^ (1023 : ℤ) = 2 ^ (52 : ℤ) * 2 ^ (971 : ℤ) := by
    rw [← zpow_add₀ two_ne_zero]
    rfl
  calc m * c ≤ 2 ^ (1023 : ℤ) * (1 + 2 ^ (-17 : ℤ)) := by gcongr
    _ = 2 ^ (52 : ℤ) * (1 + 2 ^ (-17 : ℤ)) * 2 ^ (971 : ℤ) := by rw [hsplit, mul_right_comm]
    _ < greatest := by
        rw [greatest]
        gcongr
        norm_num

theorem Reaches.isFinite {x y : Float} {q : ℚ} (h : Reaches x q) (hy : Rounds q (unpacked y))
    (hsmall : |number x| ≤ 2 ^ (1023 : ℤ)) : y.isFinite = true :=
  isFinite_of_rounds hy
    (h.abs_le.trans_lt (mul_lt_greatest (scale_le hsmall) le_rfl (by positivity)))

section Moved

variable {x : Float} (hx : x.isFinite = true)

include hx

theorem reaches_of_abs_eq {d : ℚ} (h : |d| = |number (differenceStep x)|) :
    Reaches x (number x + d) := by
  obtain ⟨-, hlower, hupper⟩ := differenceStep_bounds hx
  have hone := one_le_scale (number x)
  have hpos : 0 ≤ number (differenceStep x) := LE.le.trans (by positivity) hlower
  rw [abs_of_nonneg hpos] at h
  refine ⟨?_, ?_⟩ <;> rwa [add_sub_cancel_left, h]

theorem reaches_forward : Reaches x (number x + number (differenceStep x)) :=
  reaches_of_abs_eq hx rfl

theorem reaches_backward : Reaches x (number x - number (differenceStep x)) := by
  rw [sub_eq_add_neg]
  exact reaches_of_abs_eq hx (abs_neg _)

theorem rounds_forward : Rounds (number x + number (differenceStep x)) (unpacked (forward x)) :=
  rounds_add hx (differenceStep_bounds hx).1

theorem rounds_backward : Rounds (number x - number (differenceStep x)) (unpacked (backward x)) :=
  rounds_sub hx (differenceStep_bounds hx).1

theorem slack_lt_differenceStep {q : ℚ} (h : Reaches x q) :
    slack q < number (differenceStep x) := by
  have hslack := h.slack_le
  have hlower := (differenceStep_bounds hx).2.1
  have hone := one_le_scale (number x)
  norm_num at hslack hlower
  linarith

theorem lt_forward : x < forward x := by
  have hslack := slack_lt_differenceStep hx (reaches_forward hx)
  exact lt_of_rounds (rounds_forward hx) hx (by linarith)

theorem backward_lt : backward x < x := by
  have hslack := slack_lt_differenceStep hx (reaches_backward hx)
  exact lt_of_rounds_below (rounds_backward hx) hx (by linarith)

theorem width_bounds (hforward : (forward x).isFinite = true)
    (hbackward : (backward x).isFinite = true) :
    scale (number x) * 2 ^ (-18 : ℤ) ≤ number (forward x) - number (backward x) ∧
      number (forward x) - number (backward x) ≤ scale (number x) := by
  obtain ⟨-, hlower, hupper⟩ := differenceStep_bounds hx
  have hslack := (reaches_forward hx).slack_le
  have hslack' := (reaches_backward hx).slack_le
  obtain ⟨hmost, hleast⟩ := abs_sub_le_iff.1 (abs_number_sub_le (rounds_forward hx) hforward)
  obtain ⟨hmost', hleast'⟩ := abs_sub_le_iff.1 (abs_number_sub_le (rounds_backward hx) hbackward)
  have hone := one_le_scale (number x)
  norm_num at hlower hupper hslack hslack' ⊢
  constructor <;> linarith

theorem width_pos : 0 < forward x - backward x := by
  -- if either of the two has overflowed, so does their distance
  by_cases hforward : (forward x).isFinite = true
  · by_cases hbackward : (backward x).isFinite = true
    · obtain ⟨hlower, hupper⟩ := width_bounds hx hforward hbackward
      have hone := one_le_scale (number x)
      have hslack := Binary64.slack_le (q := number (forward x) - number (backward x)) hone (by
        rw [abs_of_nonneg (LE.le.trans (by positivity) hlower)]
        linarith)
      refine lt_of_rounds (rounds_sub hforward hbackward) (by decide) ?_
      rw [number_zero, zero_add]
      norm_num at hslack hlower
      linarith
    · exact lt_positive_infinity (by decide)
        (sub_negative_infinity hforward (infinite_of_gt (backward_lt hx) hbackward))
  · have hinfinite := infinite_of_lt (lt_forward hx) hforward
    refine lt_positive_infinity (by decide) (infinity_sub hinfinite ?_)
    by_cases hbackward : (backward x).isFinite = true
    · exact Or.inl hbackward
    · exact Or.inr (infinite_of_gt (backward_lt hx) hbackward)

theorem isFinite_of_small (hsmall : |number x| ≤ 2 ^ (1023 : ℤ)) :
    (forward x).isFinite = true ∧ (backward x).isFinite = true ∧
      (forward x - backward x).isFinite = true := by
  have hforward := (reaches_forward hx).isFinite (rounds_forward hx) hsmall
  have hbackward := (reaches_backward hx).isFinite (rounds_backward hx) hsmall
  refine ⟨hforward, hbackward, isFinite_of_rounds (rounds_sub hforward hbackward) ?_⟩
  obtain ⟨hlower, hupper⟩ := width_bounds hx hforward hbackward
  have hone := one_le_scale (number x)
  rw [abs_of_nonneg (LE.le.trans (by positivity) hlower)]
  have hgreatest := mul_lt_greatest (scale_le hsmall) (c := 1) (by norm_num) zero_le_one
  rw [mul_one] at hgreatest
  exact hupper.trans_lt hgreatest

end Moved

end Finite

section Infinite

variable {x : Float}

theorem unpacked_differenceStep {s : Sign} (hx : unpacked x = .infinity s) :
    unpacked (differenceStep x) = .infinity .positive := by
  have habs : unpacked x.abs = .infinity .positive := by
    rw [unpacked_abs, hx]
    rfl
  have hlt : 1 < x.abs := lt_positive_infinity (by decide) habs
  rw [differenceStep, larger, if_pos hlt]
  change UnpackedFloat.unpack .binary64 (UnpackedFloat.pack .binary64
    (UnpackedFloat.mul .binary64 (unpacked differenceScale) (unpacked x.abs))) = _
  rw [habs]
  rfl

theorem isNaN_width (hx : x.isFinite = false) : (forward x - backward x).isNaN = true := by
  refine eq_true_of_ne_false fun hwidth => ?_
  obtain ⟨hforward, hbackward⟩ := not_isNaN_of_sub hwidth
  obtain ⟨s, hs⟩ := exists_infinity (not_isNaN_of_add hforward).1 (by simp [hx])
  have hstep := unpacked_differenceStep hs
  cases s with
  | positive =>
    have hopposite : unpacked (-differenceStep x) = .infinity .negative := by
      rw [unpacked_neg, hstep]
      rfl
    rw [backward, sub_eq_add, isNaN_add_of_infinities hs hopposite] at hbackward
    cases hbackward
  | negative =>
    rw [forward, isNaN_add_of_infinities hs hstep] at hforward
    cases hforward

end Infinite

section Columns

variable {σ ε : Type} {R : ResidualEvaluator σ ε} {x : List Float} {j : Nat}

theorem isNaN_column (s : σ) (scratch : Scratch) (jx : DenseMatrix Float) (hj : j < x.length)
    (hx : (x.getD j 0).isFinite = false) :
    let reply := jacobian R (s, scratch) x jx
    (∀ i a, reply.buffer.get? i j = some a → a.isNaN = true) ∨
      reply.failure ≠ none ∧ ∀ i, reply.buffer.get? i j = jx.get? i j := by
  intro reply
  obtain ⟨pairs, last, haccount⟩ := exists_account R s scratch x jx
  change Account R x jx pairs last reply.failure reply.buffer at haccount
  have hrows := haccount.written.rows
  have hcols := haccount.written.cols
  cases hpair : pairs[j]? with
  | some p =>
    left
    intro i a ha
    have hin : i < reply.buffer.rows ∧ j < reply.buffer.cols := by
      by_contra hout
      rw [DenseMatrix.get?_eq_none hout] at ha
      cases ha
    obtain ⟨plus, minus, -, -, hentry⟩ :=
      haccount.get?_written (hrows ▸ hin.1) (hcols ▸ hin.2) hpair
    obtain rfl := Option.some.inj (ha.symm.trans hentry)
    refine eq_true_of_ne_false fun hnumber => ?_
    have hwidth : (width x j).isNaN = true := isNaN_width hx
    rw [(not_isNaN_of_div hnumber).2] at hwidth
    cases hwidth
  | none =>
    by_cases hfails : reply.failure = none
    · left
      intro i a ha
      have hlength := (haccount.complete hfails).2
      have hout := List.getElem?_eq_none_iff.1 hpair
      rw [DenseMatrix.get?_eq_none (by omega)] at ha
      cases ha
    · exact Or.inr ⟨hfails, haccount.get?_kept hpair⟩

theorem refused_of_column {n : Nat} {p : Newton.Point} (hp : p.Square n) {s : σ} {scratch : Scratch}
    {jx : DenseMatrix Float}
    (hfailure : (jacobian R (s, scratch) p.x jx).failure = none)
    (hjacobian : p.jacobian = (jacobian R (s, scratch) p.x jx).buffer) (hj : j < n)
    (hx : (p.x.getD j 0).isFinite = false) : p.Refused ε := by
  refine Newton.Point.refused_of_directions fun d hd hfinite => ?_
  obtain ⟨a, ha⟩ := DenseMatrix.exists_get? (m := p.jacobian) (i := j) (hp.rows.symm ▸ hj)
    (hp.cols.symm ▸ hj)
  have hnumber := Newton.Point.not_isNaN_of_direction hp hd hfinite ha
  rw [hjacobian] at ha
  rcases isNaN_column (R := R) s scratch jx (hp.length_x.symm ▸ hj) hx with hnan | hfails
  · rw [hnan j a ha] at hnumber
    cases hnumber
  · exact hfails.1 hfailure

theorem width_pos_or_refused :
    (∀ x : Float, x.isFinite = true → backward x < x ∧ x < forward x ∧
      0 < forward x - backward x ∧ (forward x - backward x).isNaN = false ∧
      (|number x| ≤ 2 ^ 1023 → (forward x).isFinite = true ∧ (backward x).isFinite = true ∧
        (forward x - backward x).isFinite = true)) ∧
    ∀ (R : ResidualEvaluator σ ε) (s : σ) (scratch : Scratch) (x : List Float)
      (jx : DenseMatrix Float), ∀ j < x.length, (x.getD j 0).isFinite = false →
        let reply := jacobian R (s, scratch) x jx
        (width x j).isNaN = true ∧
        ((∀ i a, reply.buffer.get? i j = some a → a.isNaN = true) ∨
          reply.failure ≠ none ∧ ∀ i, reply.buffer.get? i j = jx.get? i j) ∧
        ∀ (n : Nat) (p : Newton.Point), p.Square n → p.x = x → p.jacobian = reply.buffer →
          reply.failure = none → p.Refused ε := by
  constructor
  · intro x hx
    have hwidth := width_pos hx
    exact ⟨backward_lt hx, lt_forward hx, hwidth, (not_isNaN_of_lt hwidth).2,
      fun hsmall => isFinite_of_small hx (by exact_mod_cast hsmall)⟩
  · intro R s scratch x jx j hj hx
    refine ⟨isNaN_width hx, isNaN_column s scratch jx hj hx, ?_⟩
    rintro n p hp rfl hjacobian hfailure
    exact refused_of_column hp hfailure hjacobian (hp.length_x ▸ hj) hx

def identity : ResidualEvaluator Unit String :=
  ⟨fun s x fx => ⟨none, fx.set 0 (x.getD 0 0), s⟩, fun _ _ _ => List.length_set⟩

def beyondAll : Newton.Point := { Newton.Point.blank [1 / 0] with
  jacobian := (jacobian identity ((), .empty) [1 / 0] (.filled 1 1 0)).buffer }

theorem beyondAll_refused :
    (backward 1 < 1 ∧ 1 < forward 1 ∧ 0 < forward 1 - backward 1 ∧
      (forward 1 - backward 1).isFinite = true) ∧
    (beyondAll.x.getD 0 0).isFinite = false ∧ beyondAll.Square 1 ∧ beyondAll.Refused String := by
  obtain ⟨hfinite, hinfinite⟩ := width_pos_or_refused (σ := Unit) (ε := String)
  constructor
  · obtain ⟨hbackward, hforward, hwidth, -, hsmall⟩ := hfinite 1 (by decide)
    have hone : |number 1| ≤ 2 ^ 1023 := by
      rw [number_one, abs_one]
      exact one_le_pow₀ one_le_two
    exact ⟨hbackward, hforward, hwidth, (hsmall hone).2.2⟩
  · have hx : (beyondAll.x.getD 0 0).isFinite = false := by decide
    have hsquare : beyondAll.Square 1 := ⟨rfl, rfl, rfl, rfl⟩
    exact ⟨hx, hsquare, (hinfinite identity () .empty [1 / 0] (.filled 1 1 0) 0 (by decide) hx).2.2
      1 beyondAll hsquare rfl rfl rfl⟩

end Columns

end RootFinding.CentralDifference
