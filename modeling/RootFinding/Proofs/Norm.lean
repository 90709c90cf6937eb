import RootFinding.Proofs.Binary64.Arithmetic
import RootFinding.Proofs.Binary64.Order

/-!
# What the maximum norm says

The maximum norm is NaN exactly when a component is. Otherwise it is zero or one of the
magnitudes, so it is below no tolerance that is not positive, and no magnitude is above it. It is
finite exactly if every component is, and so is a norm that is below a tolerance. Neither it nor the
length of a step has a sign unless it is NaN, and a step of finite components has a length that may
be infinite but not NaN.
-/

namespace RootFinding

open Binary64

def magnitudes (v : List Float) : List Float := v.map Float.abs

theorem foldl_larger_eq (v : List Float) (m : Float) :
    v.foldl (fun m a => larger m a.abs) m = (magnitudes v).foldl larger m := by
  rw [magnitudes, List.foldl_map]

theorem foldl_larger_mem (v : List Float) (m : Float) : v.foldl larger m ∈ m :: v := by
  induction v generalizing m with
  | nil => exact List.mem_singleton.2 rfl
  | cons a v ih =>
    rw [List.foldl_cons]
    have h := ih (larger m a)
    rcases List.mem_cons.1 h with h | h
    · rw [h, larger]
      split <;> simp
    · exact List.mem_cons_of_mem _ (List.mem_cons_of_mem _ h)

theorem infNorm_mem {v : List Float} (h : v.any Float.isNaN = false) :
    infNorm v ∈ 0 :: magnitudes v := by
  rw [infNorm, if_neg (by simp [h]), foldl_larger_eq]
  exact foldl_larger_mem _ _

theorem isNaN_infNorm (v : List Float) : (infNorm v).isNaN = v.any Float.isNaN := by
  cases h : v.any Float.isNaN with
  | true =>
    rw [infNorm, if_pos h]
    rfl
  | false =>
    rcases List.mem_cons.1 (infNorm_mem h) with hz | hm
    · rw [hz]
      rfl
    · obtain ⟨a, ha, hn⟩ := List.mem_map.1 hm
      rw [← hn, isNaN_abs]
      simpa using List.any_eq_false.1 h a ha

theorem pos_of_infNorm_lt {v : List Float} {t : Float} (h : infNorm v < t) : 0 < t := by
  cases hv : v.any Float.isNaN with
  | true =>
    have hn : (infNorm v).isNaN = true := (isNaN_infNorm v).trans hv
    exact absurd h (not_lt_of_isNaN hn t)
  | false =>
    rcases List.mem_cons.1 (infNorm_mem hv) with hz | hm
    · rwa [hz] at h
    · obtain ⟨a, ha, hn⟩ := List.mem_map.1 hm
      rw [← hn] at h
      exact pos_of_abs_lt h

theorem isNaN_infNorm_of_finite {v : List Float} (h : v.all Float.isFinite = true) :
    (infNorm v).isNaN = false := by
  rw [isNaN_infNorm, List.any_eq_false]
  intro a ha
  simpa using isNaN_of_isFinite (List.all_eq_true.1 h a ha)

theorem isNaN_larger {a b : Float} (ha : a.isNaN = false) (hb : b.isNaN = false) :
    (larger a b).isNaN = false := by
  unfold larger
  split
  · exact hb
  · exact ha

theorem le_larger {a b : Float} (ha : a.isNaN = false) (hb : b.isNaN = false) :
    a ≤ larger a b ∧ b ≤ larger a b := by
  unfold larger
  split
  · next hlt => exact ⟨le_of_lt hlt, le_refl hb⟩
  · next hnot => exact ⟨le_refl ha, le_of_not_lt ha hb hnot⟩

theorem le_foldl_larger {v : List Float} {m : Float} (hm : m.isNaN = false)
    (hv : ∀ a ∈ v, a.isNaN = false) :
    m ≤ v.foldl larger m ∧ ∀ a ∈ v, a ≤ v.foldl larger m := by
  induction v generalizing m with
  | nil => exact ⟨le_refl hm, by simp⟩
  | cons a v ih =>
    have ha := hv a List.mem_cons_self
    obtain ⟨hleft, hright⟩ := le_larger hm ha
    obtain ⟨hstart, hrest⟩ := ih (isNaN_larger hm ha) fun b hb => hv b (List.mem_cons_of_mem _ hb)
    rw [List.foldl_cons]
    refine ⟨le_trans hleft hstart, fun b hb => ?_⟩
    rcases List.mem_cons.1 hb with rfl | hb
    · exact le_trans hright hstart
    · exact hrest b hb

theorem not_isNaN_magnitudes {v : List Float} (hv : ∀ a ∈ v, a.isNaN = false) :
    ∀ m ∈ magnitudes v, m.isNaN = false := by
  intro m hm
  obtain ⟨a, ha, rfl⟩ := List.mem_map.1 hm
  exact (isNaN_abs a).trans (hv a ha)

theorem le_infNorm {v : List Float} (hv : v.any Float.isNaN = false) :
    0 ≤ infNorm v ∧ ∀ m ∈ magnitudes v, m ≤ infNorm v := by
  rw [infNorm, if_neg (by simp [hv]), foldl_larger_eq]
  exact le_foldl_larger rfl (not_isNaN_magnitudes (by simpa using hv))

theorem abs_le_infNorm {v : List Float} (hv : v.any Float.isNaN = false) {a : Float}
    (ha : a ∈ v) : a.abs ≤ infNorm v := (le_infNorm hv).2 a.abs (List.mem_map_of_mem ha)

theorem all_isFinite_of_infNorm {v : List Float} (h : (infNorm v).isFinite = true) :
    v.all Float.isFinite = true := by
  have hv : v.any Float.isNaN = false := (isNaN_infNorm v).symm.trans (isNaN_of_isFinite h)
  exact List.all_eq_true.2 fun a ha => isFinite_of_abs_le (abs_le_infNorm hv ha) h

theorem isFinite_infNorm {v : List Float} (h : v.all Float.isFinite = true) :
    (infNorm v).isFinite = true := by
  rcases List.mem_cons.1 (infNorm_mem ((isNaN_infNorm v).symm.trans (isNaN_infNorm_of_finite h)))
    with hzero | hmem
  · rw [hzero]
    rfl
  · obtain ⟨a, ha, hnorm⟩ := List.mem_map.1 hmem
    rw [← hnorm, isFinite_abs]
    exact List.all_eq_true.1 h a ha

theorem isFinite_infNorm_of_lt {v : List Float} {t : Float} (h : infNorm v < t) :
    (infNorm v).isFinite = true := by
  have hv : v.any Float.isNaN = false := (isNaN_infNorm v).symm.trans (not_isNaN_of_lt h).1
  rcases List.mem_cons.1 (infNorm_mem hv) with hzero | hmem
  · rw [hzero]
    rfl
  · obtain ⟨a, -, ha⟩ := List.mem_map.1 hmem
    rw [← ha] at h ⊢
    exact isFinite_abs_of_lt h

theorem any_isNaN_perm {v w : List Float} (h : v.Perm w) :
    v.any Float.isNaN = w.any Float.isNaN := by
  rw [Bool.eq_iff_iff, List.any_eq_true, List.any_eq_true]
  simp only [h.mem_iff]

theorem infNorm_le_of_perm {v w : List Float} (h : v.Perm w) (hv : v.any Float.isNaN = false) :
    infNorm v ≤ infNorm w := by
  obtain ⟨hzero, hmagnitudes⟩ := le_infNorm ((any_isNaN_perm h).symm.trans hv)
  rcases List.mem_cons.1 (infNorm_mem hv) with heq | hmem
  · rw [heq]
    exact hzero
  · exact hmagnitudes _ ((h.map _).mem_iff.1 hmem)

theorem exists_abs_eq_infNorm {v : List Float} (hv : v.any Float.isNaN = false) :
    ∃ a, infNorm v = Float.abs a := by
  rcases List.mem_cons.1 (infNorm_mem hv) with hzero | hmem
  · exact ⟨0, hzero⟩
  · obtain ⟨a, -, ha⟩ := List.mem_map.1 hmem
    exact ⟨a, ha.symm⟩

theorem infNorm_perm {v w : List Float} (h : v.Perm w) : infNorm v = infNorm w := by
  have hany := any_isNaN_perm h
  cases hv : v.any Float.isNaN with
  | true => rw [infNorm, infNorm, if_pos hv, if_pos (hany ▸ hv)]
  | false =>
    have hw : w.any Float.isNaN = false := hany ▸ hv
    have hle := infNorm_le_of_perm h hv
    have hge := infNorm_le_of_perm h.symm hw
    obtain ⟨a, ha⟩ := exists_abs_eq_infNorm hv
    obtain ⟨b, hb⟩ := exists_abs_eq_infNorm hw
    rw [ha, hb] at hle hge ⊢
    exact abs_eq_of_le hle hge

theorem unsigned_infNorm {v : List Float} (h : (infNorm v).isNaN = false) :
    Unsigned (infNorm v) := by
  rcases List.mem_cons.1 (infNorm_mem ((isNaN_infNorm v).symm.trans h)) with hzero | hmem
  · rw [hzero]
    exact unsigned_zero
  · obtain ⟨a, -, ha⟩ := List.mem_map.1 hmem
    rw [← ha] at h ⊢
    exact unsigned_abs ((isNaN_abs a).symm.trans h)

theorem unsigned_addSquares {v : List Float} (hv : ∀ a ∈ v, a.isNaN = false) {start : Float}
    (hstart : Unsigned start) : Unsigned (addSquares start v) := by
  induction v generalizing start with
  | nil => exact hstart
  | cons a v ih =>
    have hsum := hstart.add (unsigned_mul_self (hv a List.mem_cons_self))
    exact ih (fun b hb => hv b (List.mem_cons_of_mem _ hb)) hsum

theorem unsigned_zipWith {f : Float → Float → Float} {as bs : List Float}
    (h : ∀ a ∈ as, ∀ b ∈ bs, Unsigned (f a b)) : ∀ c ∈ List.zipWith f as bs, Unsigned c := by
  intro c hc
  rw [← List.map_uncurry_zip_eq_zipWith] at hc
  obtain ⟨⟨a, b⟩, hab, rfl⟩ := List.mem_map.1 hc
  obtain ⟨ha, hb⟩ := List.of_mem_zip hab
  exact h a ha b hb

theorem unsigned_laneSums (width blocks : Nat) {sums v : List Float}
    (hsums : ∀ sum ∈ sums, Unsigned sum) (hv : ∀ a ∈ v, a.isNaN = false) :
    ∀ sum ∈ laneSums width blocks sums v, Unsigned sum := by
  induction blocks generalizing sums v with
  | zero => exact hsums
  | succ blocks ih =>
    refine ih ?_ fun a ha => hv a (List.mem_of_mem_drop ha)
    exact unsigned_zipWith fun sum hsum a ha =>
      (hsums sum hsum).add (unsigned_mul_self (hv a (List.mem_of_mem_take ha)))

theorem unsigned_foldl_add {v : List Float} (hv : ∀ a ∈ v, Unsigned a) {start : Float}
    (hstart : Unsigned start) : Unsigned (v.foldl (· + ·) start) := by
  induction v generalizing start with
  | nil => exact hstart
  | cons a v ih =>
    exact ih (fun b hb => hv b (List.mem_cons_of_mem _ hb)) (hstart.add (hv a List.mem_cons_self))

theorem unsigned_sumSquares {v : List Float} (hv : ∀ a ∈ v, a.isNaN = false) :
    Unsigned (sumSquares v) := by
  have hzeros : ∀ sum ∈ List.replicate 8 (0 : Float), Unsigned sum := by
    intro sum hsum
    rw [List.eq_of_mem_replicate hsum]
    exact unsigned_zero
  have hlanes := unsigned_laneSums 8 (v.length / 8) hzeros hv
  have hpairs := unsigned_zipWith (f := (· + ·)) fun a ha b hb =>
    (hlanes a (List.mem_of_mem_take (i := 4) ha)).add (hlanes b (List.mem_of_mem_drop (i := 4) hb))
  exact unsigned_addSquares (fun a ha => hv a (List.mem_of_mem_drop ha))
    (unsigned_foldl_add hpairs unsigned_zero)

theorem unsigned_stepLength {v : List Float} (h : v.all Float.isFinite = true) :
    Unsigned (stepLength v) :=
  (unsigned_sumSquares fun a ha => isNaN_of_isFinite (List.all_eq_true.1 h a ha)).sqrt

end RootFinding
