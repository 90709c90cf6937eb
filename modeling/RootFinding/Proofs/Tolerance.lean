import RootFinding.Proofs.Binary64.Magnitude
import RootFinding.Proofs.Norm
import RootFinding.Tolerance

/-!
# What norms and verdicts say of the components

The maximum norm is the outcome of one scan, which keeps the greatest magnitude so far and gives up
at the first NaN; the distance of two vectors is that of a scan of their differences. Either is
below a tolerance exactly if the tolerance is positive and every component is below it, so each half
of a verdict is read off the components that it is about: no NaN passes, whatever the tolerance, and
nothing passes one that is zero, negative or NaN.
-/

namespace RootFinding

open Binary64

def scanMagnitudes : Float → List Float → Option Float
  | most, [] => some most
  | most, a :: v => if a.isNaN then none else scanMagnitudes (larger most a.abs) v

def scanDifferences : Float → List Float → List Float → Option Float
  | most, a :: v, b :: w =>
    if (a - b).isNaN then none else scanDifferences (larger most (a - b).abs) v w
  | most, _, _ => some most

theorem scanMagnitudes_eq (most : Float) (v : List Float) :
    scanMagnitudes most v =
      if v.any Float.isNaN then none else some (v.foldl (fun m a => larger m a.abs) most) := by
  induction v generalizing most with
  | nil => rfl
  | cons a v ih =>
    rw [scanMagnitudes, List.any_cons]
    cases a.isNaN with
    | true => rfl
    | false => exact ih (larger most a.abs)

theorem scanDifferences_eq (most : Float) (v w : List Float) :
    scanDifferences most v w = scanMagnitudes most (List.zipWith (· - ·) v w) := by
  induction v generalizing most w with
  | nil => rfl
  | cons a v ih =>
    cases w with
    | nil => rfl
    | cons b w =>
      rw [scanDifferences, List.zipWith_cons_cons, scanMagnitudes, ih]

theorem infNorm_eq_scan (v : List Float) :
    infNorm v = (scanMagnitudes 0 v).getD notANumber := by
  rw [scanMagnitudes_eq, infNorm]
  split <;> rfl

theorem infDistance_eq_scan (v w : List Float) :
    infDistance v w = (scanDifferences 0 v w).getD notANumber := by
  rw [scanDifferences_eq, infDistance, infNorm_eq_scan]

theorem infNorm_lt_iff {v : List Float} {t : Float} :
    infNorm v < t ↔ 0 < t ∧ ∀ a ∈ v, a.abs < t := by
  constructor
  · intro h
    have hv : v.any Float.isNaN = false := (isNaN_infNorm v).symm.trans (not_isNaN_of_lt h).1
    exact ⟨pos_of_infNorm_lt h, fun a ha => le_trans_lt (abs_le_infNorm hv ha) h⟩
  · rintro ⟨hpos, hall⟩
    have hv : v.any Float.isNaN = false := by
      rw [List.any_eq_false]
      intro a ha
      rw [← isNaN_abs, (not_isNaN_of_lt (hall a ha)).1]
      exact Bool.false_ne_true
    rcases List.mem_cons.1 (infNorm_mem hv) with hzero | hmem
    · rwa [hzero]
    · obtain ⟨a, ha, hnorm⟩ := List.mem_map.1 hmem
      rw [← hnorm]
      exact hall a ha

theorem infDistance_lt_iff {v w : List Float} {t : Float} :
    infDistance v w < t ↔ 0 < t ∧
      ∀ i (hv : i < v.length) (hw : i < w.length), (v[i] - w[i]).abs < t := by
  rw [infDistance, infNorm_lt_iff, List.forall_mem_iff_forall_getElem]
  simp only [List.getElem_zipWith, List.length_zipWith, Nat.lt_min]
  exact and_congr_right fun _ => ⟨fun h i hv hw => h i ⟨hv, hw⟩, fun h i hi => h i hi.1 hi.2⟩

theorem infNorm_congr {v w : List Float} (h : magnitudes v = magnitudes w) :
    infNorm v = infNorm w := by
  have hany (u : List Float) : u.any Float.isNaN = (magnitudes u).any Float.isNaN := by
    rw [magnitudes, List.any_map]
    exact congrArg (List.any u) (funext fun a => (isNaN_abs a).symm)
  rw [infNorm, infNorm, foldl_larger_eq, foldl_larger_eq, hany v, hany w, h]

def UpToSign (a b : Float) : Prop := b = a ∨ b = -a

theorem magnitudes_upToSign {v w : List Float} (h : List.Forall₂ UpToSign v w) :
    magnitudes v = magnitudes w := by
  induction h with
  | nil => rfl
  | @cons a b v w hab _ ih =>
    have hhead : a.abs = b.abs := by
      rcases hab with rfl | rfl
      · rfl
      · exact (magnitude_neg a).symm
    rw [magnitudes, List.map_cons, hhead]
    exact congrArg (b.abs :: ·) ih

theorem infDistance_comm (v w : List Float) : infDistance v w = infDistance w v := by
  refine infNorm_congr ?_
  rw [magnitudes, magnitudes, List.map_zipWith, List.map_zipWith, List.zipWith_comm]
  exact congrArg (fun f => List.zipWith f w v) (funext₂ fun b a => magnitude_sub_comm a b)

structure Measures (v : List Float) (size : Float) : Prop where
  isNaN : size.isNaN = true ↔ ∃ a ∈ v, a.isNaN = true
  signBit : size.isNaN = false → signBit size = false
  bounds : size.isNaN = false → ∀ a ∈ v, a.abs ≤ size
  attained : size.isNaN = false → size = 0 ∨ ∃ a ∈ v, size = a.abs
  unmoved : ∀ w w', v.Perm w → List.Forall₂ UpToSign w w' → infNorm w' = size

theorem measures_infNorm (v : List Float) : Measures v (infNorm v) where
  isNaN := by rw [isNaN_infNorm, List.any_eq_true]
  signBit h := (unsigned_infNorm h).signBit
  bounds h _ ha := abs_le_infNorm ((isNaN_infNorm v).symm.trans h) ha
  attained h := by
    rcases List.mem_cons.1 (infNorm_mem ((isNaN_infNorm v).symm.trans h)) with hzero | hmem
    · exact Or.inl hzero
    · obtain ⟨a, ha, hnorm⟩ := List.mem_map.1 hmem
      exact Or.inr ⟨a, ha, hnorm.symm⟩
  unmoved w w' hperm hsigns := by
    rw [← infNorm_congr (magnitudes_upToSign hsigns), infNorm_perm hperm]

/-- What the distance says of two vectors: it is the norm of their differences, made as far as both
go, and one scan of the two finds it. -/
structure Separates (v w : List Float) (distance : Float) : Prop where
  differences : ∃ d : List Float, d.length = min v.length w.length ∧
    (∀ i (hv : i < v.length) (hw : i < w.length), d[i]? = some (v[i] - w[i])) ∧
    distance = infNorm d ∧ Measures d distance
  scanned : distance = (scanDifferences 0 v w).getD notANumber
  symmetric : infDistance w v = distance

theorem separates_infDistance (v w : List Float) : Separates v w (infDistance v w) where
  differences := by
    refine ⟨List.zipWith (· - ·) v w, List.length_zipWith, ?_, rfl, measures_infNorm _⟩
    intro i hv hw
    rw [List.getElem?_zipWith, List.getElem?_eq_getElem hv, List.getElem?_eq_getElem hw]
  scanned := infDistance_eq_scan v w
  symmetric := infDistance_comm w v

/-- What a verdict says of the components. The other tolerance and the other vectors have no part in
either half. -/
structure JudgedBy (t : Tolerances) (x previous residual : List Float) (verdict : Verdict) :
    Prop where
  smallResidual : verdict.smallResidual = true ↔
    0 < t.residual ∧ ∀ a ∈ residual, a.abs < t.residual
  smallStep : verdict.smallStep = true ↔ 0 < t.step ∧
    ∀ i (hx : i < x.length) (hp : i < previous.length), (x[i] - previous[i]).abs < t.step
  residualAlone : ∀ step x' previous', verdict.smallResidual =
    (Tolerances.judge ⟨step, t.residual⟩ x' previous' residual).smallResidual
  stepAlone : ∀ tolerance residual', verdict.smallStep =
    (Tolerances.judge ⟨t.step, tolerance⟩ x previous residual').smallStep

theorem judgedBy_judge (t : Tolerances) (x previous residual : List Float) :
    JudgedBy t x previous residual (t.judge x previous residual) where
  smallResidual := decide_eq_true_iff.trans infNorm_lt_iff
  smallStep := decide_eq_true_iff.trans infDistance_lt_iff
  residualAlone _ _ _ := rfl
  stepAlone _ _ := rfl

theorem norms_and_verdicts_by_components :
    (∀ v, infNorm v = (scanMagnitudes 0 v).getD notANumber ∧ Measures v (infNorm v)) ∧
      (∀ v w, Separates v w (infDistance v w)) ∧
      ∀ (t : Tolerances) (x previous residual : List Float),
        JudgedBy t x previous residual (t.judge x previous residual) :=
  ⟨fun v => ⟨infNorm_eq_scan v, measures_infNorm v⟩, separates_infDistance, judgedBy_judge⟩

end RootFinding
