import RootFinding.Proofs.Norm

/-!
# The two Euclidean norms

The Euclidean norm adds the squares from left to right, the length of a step in blocks of eight.
Over exact numbers either way of adding counts every square once. With rounding, fewer than eight
squares are added in one order by both, and the one difference left is the zero that they start
from, which the first square swallows. Whatever the order, no sign and no NaN comes out of finite
components.
-/

namespace RootFinding

open Binary64

section Exact

theorem addSquares_eq_sum (start : ℚ) (v : List ℚ) :
    addSquares start v = start + (v.map fun a => a * a).sum := by
  induction v generalizing start with
  | nil => exact (add_zero start).symm
  | cons a v ih =>
    rw [List.map_cons, List.sum_cons, ← add_assoc]
    exact ih (start + a * a)

theorem sum_zipWith_add (f : ℚ → ℚ) {sums v : List ℚ} (h : sums.length = v.length) :
    (List.zipWith (fun sum a => sum + f a) sums v).sum = sums.sum + (v.map f).sum := by
  induction sums generalizing v with
  | nil =>
    obtain rfl := List.length_eq_zero_iff.1 h.symm
    exact (add_zero 0).symm
  | cons sum sums ih =>
    obtain ⟨a, v, rfl⟩ := List.exists_cons_of_length_eq_add_one h.symm
    rw [List.zipWith_cons_cons, List.map_cons, List.sum_cons, List.sum_cons, List.sum_cons,
      ih (Nat.succ.inj h)]
    ring

/-- The running sums keep one place to each place of a block, and together they have the squares
of the blocks. -/
theorem sum_laneSums {width : Nat} (blocks : Nat) {sums v : List ℚ} (hsums : sums.length = width)
    (hv : width * blocks ≤ v.length) :
    (laneSums width blocks sums v).length = width ∧
      (laneSums width blocks sums v).sum =
        sums.sum + ((v.take (width * blocks)).map fun a => a * a).sum := by
  induction blocks generalizing sums v with
  | zero => exact ⟨hsums, by simp [laneSums]⟩
  | succ blocks ih =>
    rw [Nat.mul_succ] at hv
    have hblock : (v.take width).length = width := List.length_take_of_le (by omega)
    have hlanes : (List.zipWith (fun sum a => sum + a * a) sums (v.take width)).length = width := by
      rw [List.length_zipWith, hsums, hblock, Nat.min_self]
    have hrest : width * blocks ≤ (v.drop width).length := by
      rw [List.length_drop]
      omega
    obtain ⟨hlength, hsum⟩ := ih hlanes hrest
    refine ⟨hlength, hsum.trans ?_⟩
    rw [sum_zipWith_add (fun a => a * a) (hsums.trans hblock.symm), Nat.mul_succ, Nat.add_comm,
      List.take_add, List.map_append, List.sum_append, add_assoc]

theorem sum_paired {lanes : List ℚ} {half : Nat} (h : lanes.length = half + half) :
    (List.zipWith (· + ·) (lanes.take half) (lanes.drop half)).foldl (· + ·) 0 = lanes.sum := by
  have hhalves : (lanes.take half).length = (lanes.drop half).length := by
    rw [List.length_take, List.length_drop]
    omega
  rw [← List.sum_eq_foldl, ← List.sum_take_add_sum_drop lanes half]
  exact (sum_zipWith_add id hhalves).trans (by rw [List.map_id])

theorem sumSquares_eq_sum (v : List ℚ) : sumSquares v = (v.map fun a => a * a).sum := by
  have hwhole : 8 * (v.length / 8) ≤ v.length := Nat.mul_div_le v.length 8
  have hlanes : (List.replicate 8 (0 : ℚ)).length = 8 := List.length_replicate
  have hzeros : (List.replicate 8 (0 : ℚ)).sum = 0 := by simp
  obtain ⟨hlength, hsum⟩ := sum_laneSums (v.length / 8) hlanes hwhole
  have hhalves : (laneSums 8 (v.length / 8) (List.replicate 8 (0 : ℚ)) v).length = 4 + 4 := hlength
  calc sumSquares v
      = (laneSums 8 (v.length / 8) (List.replicate 8 0) v).sum +
          ((v.drop (8 * (v.length / 8))).map fun a => a * a).sum := by
        rw [← sum_paired hhalves]
        exact addSquares_eq_sum _ _
    _ = ((v.take (8 * (v.length / 8)) ++ v.drop (8 * (v.length / 8))).map fun a => a * a).sum := by
        rw [hsum, hzeros, zero_add, List.map_append, List.sum_append]
    _ = (v.map fun a => a * a).sum := by rw [List.take_append_drop]

theorem sum_squares_eq (v : List ℚ) :
    (v.map fun a => a * a).sum = ∑ i : Fin v.length, v[i] ^ 2 := by
  rw [← Fin.sum_univ_fun_getElem v fun a => a * a]
  exact Finset.sum_congr rfl fun i _ => (pow_two _).symm

end Exact

theorem square_ne_negative_zero (a : Float) : unpacked (a * a) ≠ .zero .negative := by
  intro h
  have hsquare : (a * a).isNaN = false := by
    change (unpacked (a * a)).isNaN = false
    rw [h]
    rfl
  have hunsigned := unsigned_mul_self (not_isNaN_of_mul hsquare).1
  rw [Unsigned, h] at hunsigned
  cases hunsigned

theorem negative_zero_add_square (a : Float) : -0.0 + a * a = 0 + a * a := by
  have hsum : Float.Model.UnpackedFloat.add .binary64 (.zero .negative) (unpacked (a * a)) =
      Float.Model.UnpackedFloat.add .binary64 (.zero .positive) (unpacked (a * a)) := by
    have hne := square_ne_negative_zero a
    generalize unpacked (a * a) = u at hne ⊢
    cases u with
    | notANumber => rfl
    | infinity s => rfl
    | finite s m e hm => rfl
    | zero s =>
      cases s with
      | positive => rfl
      | negative => exact absurd rfl hne
  exact congrArg (fun u => Float.ofModel (Float.Model.pack u)) hsum

theorem addSquares_negative_zero {v : List Float} (h : v ≠ []) :
    addSquares (-0.0) v = addSquares 0 v := by
  obtain ⟨a, rest, rfl⟩ := List.exists_cons_of_ne_nil h
  exact congrArg (addSquares · rest) (negative_zero_add_square a)

theorem sumSquares_of_short {v : List Float} (h : v.length < 8) :
    sumSquares v = addSquares 0 v := by
  have hnone : v.length / 8 = 0 := Nat.div_eq_of_lt h
  rw [sumSquares, hnone]
  rfl

theorem stepLength_of_short {v : List Float} (hne : v ≠ []) (h : v.length < 8) :
    stepLength v = euclideanNorm v := by
  rw [stepLength, euclideanNorm, sumSquares_of_short h, addSquares_negative_zero hne]

theorem unsigned_euclideanNorm {v : List Float} (hne : v ≠ []) (h : v.all Float.isFinite = true) :
    Unsigned (euclideanNorm v) := by
  rw [euclideanNorm, addSquares_negative_zero hne]
  exact (unsigned_addSquares (fun a ha => isNaN_of_isFinite (List.all_eq_true.1 h a ha))
    unsigned_zero).sqrt

structure NormsAgree : Prop where
  exact : ∀ d : List ℚ,
    sumSquares d = addSquares 0 d ∧ addSquares 0 d = ∑ i : Fin d.length, d[i] ^ 2
  bitwise : ∀ d : List Float, 1 ≤ d.length → d.length ≤ 7 →
    (stepLength d).toBits = (euclideanNorm d).toBits
  defined : ∀ d : List Float, d ≠ [] → d.all Float.isFinite = true →
    ∀ norm ∈ [stepLength d, euclideanNorm d], norm.isNaN = false ∧ signBit norm = false

theorem euclidean_norms_agree : NormsAgree where
  exact d := by
    have hfold : addSquares 0 d = (d.map fun a => a * a).sum :=
      (addSquares_eq_sum 0 d).trans (zero_add _)
    exact ⟨(sumSquares_eq_sum d).trans hfold.symm, hfold.trans (sum_squares_eq d)⟩
  bitwise d hone hseven := by
    rw [stepLength_of_short (List.ne_nil_of_length_pos hone) (Nat.lt_succ_of_le hseven)]
  defined d hne hfinite := by
    have hstep := unsigned_stepLength hfinite
    have hnorm := unsigned_euclideanNorm hne hfinite
    exact List.forall_mem_cons.2 ⟨⟨hstep.isNaN, hstep.signBit⟩,
      List.forall_mem_singleton.2 ⟨hnorm.isNaN, hnorm.signBit⟩⟩

/-- From eight components on the order of the roundings shows. -/
example : stepLength (1 :: List.replicate 7 (3 / 268435456)) ≠
    euclideanNorm (1 :: List.replicate 7 (3 / 268435456)) := by decide +kernel

end RootFinding
