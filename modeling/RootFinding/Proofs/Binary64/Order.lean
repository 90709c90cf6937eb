import RootFinding.Proofs.Binary64.Unpacked

/-!
# The order of binary64 numbers

Numbers other than NaN are compared by a rank: first the class of the number, from negative
infinity to positive infinity, then the exponent and the mantissa, both turned round for a
negative number. Both zeros have one rank. Ranks are linearly ordered, and from this the order of
numbers takes what it has of transitivity; a NaN is below and above nothing. Negation reverses the
order.
-/

namespace RootFinding.Binary64

open Float.Model Float.Model.UnpackedFloat

def rank : UnpackedFloat → ℤ ×ₗ ℤ ×ₗ ℤ
  | .infinity .negative => toLex (-2, toLex (0, 0))
  | .finite .negative m e _ => toLex (-1, toLex (-e, -m))
  | .zero _ => toLex (0, toLex (0, 0))
  | .notANumber => toLex (0, toLex (0, 0))
  | .finite .positive m e _ => toLex (1, toLex (e, m))
  | .infinity .positive => toLex (2, toLex (0, 0))

theorem not_isNaN_of_compare {u v : UnpackedFloat} {o : Ordering} (h : u.compare v = some o) :
    u.isNaN = false ∧ v.isNaN = false := by
  cases u with
  | notANumber => simp [UnpackedFloat.compare] at h
  | _ =>
    cases v with
    | notANumber => simp [UnpackedFloat.compare] at h
    | _ => exact ⟨rfl, rfl⟩

theorem compare_iff_rank {u v : UnpackedFloat} (hu : u.isNaN = false) (hv : v.isNaN = false) :
    (u.compare v = some .lt ↔ rank u < rank v) ∧ (u.compare v = some .eq ↔ rank u = rank v) := by
  cases u with
  | notANumber => cases hu
  | infinity s =>
    cases v with
    | notANumber => cases hv
    | infinity t => cases s <;> cases t <;> simp [UnpackedFloat.compare, rank] <;> decide
    | zero t => cases s <;> simp [UnpackedFloat.compare, rank, Prod.Lex.toLex_lt_toLex]
    | finite t m e hm =>
      cases s <;> cases t <;> simp [UnpackedFloat.compare, rank, Prod.Lex.toLex_lt_toLex]
  | zero s =>
    cases v with
    | notANumber => cases hv
    | infinity t => cases t <;> simp [UnpackedFloat.compare, rank, Prod.Lex.toLex_lt_toLex]
    | zero t => simp [UnpackedFloat.compare, rank]
    | finite t m e hm => cases t <;> simp [UnpackedFloat.compare, rank, Prod.Lex.toLex_lt_toLex]
  | finite s m e hm =>
    cases v with
    | notANumber => cases hv
    | infinity t =>
      cases s <;> cases t <;> simp [UnpackedFloat.compare, rank, Prod.Lex.toLex_lt_toLex]
    | zero t => cases s <;> simp [UnpackedFloat.compare, rank, Prod.Lex.toLex_lt_toLex]
    | finite t m' e' hm' =>
      cases s <;> cases t <;>
        simp [UnpackedFloat.compare, rank, Prod.Lex.toLex_lt_toLex, Ordering.then_eq_lt,
          Ordering.then_eq_gt, Ordering.then_eq_eq, compare_lt_iff_lt, compare_gt_iff_gt]

theorem le_iff_compare {a b : Float} :
    a ≤ b ↔ (unpacked a).compare (unpacked b) = some .lt ∨
      (unpacked a).compare (unpacked b) = some .eq := by
  change Float.le a b = true ↔ _
  rw [Float.le, decide_eq_true_iff]
  change ((unpacked a).compare (unpacked b)).any (·.isLE) = true ↔ _
  rcases (unpacked a).compare (unpacked b) with _ | (_ | _ | _) <;> decide

theorem lt_iff_rank {a b : Float} (ha : a.isNaN = false) (hb : b.isNaN = false) :
    a < b ↔ rank (unpacked a) < rank (unpacked b) :=
  lt_iff_compare.trans (compare_iff_rank ha hb).1

theorem le_iff_rank {a b : Float} (ha : a.isNaN = false) (hb : b.isNaN = false) :
    a ≤ b ↔ rank (unpacked a) ≤ rank (unpacked b) := by
  obtain ⟨hlt, heq⟩ := compare_iff_rank ha hb
  rw [le_iff_compare, hlt, heq, le_iff_lt_or_eq]

theorem not_isNaN_of_lt {a b : Float} (h : a < b) : a.isNaN = false ∧ b.isNaN = false :=
  not_isNaN_of_compare (lt_iff_compare.1 h)

theorem not_isNaN_of_le {a b : Float} (h : a ≤ b) : a.isNaN = false ∧ b.isNaN = false := by
  rcases le_iff_compare.1 h with h | h
  · exact not_isNaN_of_compare h
  · exact not_isNaN_of_compare h

theorem beq_self_iff {a : Float} : (a == a) = true ↔ a.isNaN = false := by
  change ((unpacked a).compare (unpacked a) == some .eq) = true ↔ _
  rw [beq_iff_eq]
  exact ⟨fun h => (not_isNaN_of_compare h).1, fun h => (compare_iff_rank h h).2.2 rfl⟩

theorem le_trans {a b c : Float} (hab : a ≤ b) (hbc : b ≤ c) : a ≤ c := by
  obtain ⟨ha, hb⟩ := not_isNaN_of_le hab
  obtain ⟨-, hc⟩ := not_isNaN_of_le hbc
  rw [le_iff_rank ha hb] at hab
  rw [le_iff_rank hb hc] at hbc
  rw [le_iff_rank ha hc]
  exact hab.trans hbc

theorem le_of_lt {a b : Float} (h : a < b) : a ≤ b := by
  obtain ⟨ha, hb⟩ := not_isNaN_of_lt h
  exact (le_iff_rank ha hb).2 ((lt_iff_rank ha hb).1 h).le

theorem le_refl {a : Float} (ha : a.isNaN = false) : a ≤ a := (le_iff_rank ha ha).2 le_rfl

theorem le_of_not_lt {a b : Float} (ha : a.isNaN = false) (hb : b.isNaN = false)
    (h : ¬ a < b) : b ≤ a := by
  rw [lt_iff_rank ha hb, not_lt] at h
  exact (le_iff_rank hb ha).2 h

theorem not_lt_of_le {a b : Float} (h : a ≤ b) : ¬ b < a := by
  obtain ⟨ha, hb⟩ := not_isNaN_of_le h
  rw [lt_iff_rank hb ha, not_lt]
  exact (le_iff_rank ha hb).1 h

theorem lt_trans_le {a b c : Float} (hab : a < b) (hbc : b ≤ c) : a < c := by
  by_contra hnot
  have hca := le_of_not_lt (not_isNaN_of_lt hab).1 (not_isNaN_of_le hbc).2 hnot
  exact not_lt_of_le (le_trans hbc hca) hab

theorem le_trans_lt {a b c : Float} (hab : a ≤ b) (hbc : b < c) : a < c := by
  by_contra hnot
  have hca := le_of_not_lt (not_isNaN_of_le hab).1 (not_isNaN_of_lt hbc).2 hnot
  exact not_lt_of_le (le_trans hca hab) hbc

theorem compare_neg (u v : UnpackedFloat) : u.neg.compare v.neg = v.compare u := by
  have hswap (e d : ℤ) (m n : ℕ) :
      ((compare e d).then (compare m n)).swap = (compare d e).then (compare n m) := by
    rw [Ordering.swap_then, ← Std.OrientedOrd.eq_swap, ← Std.OrientedOrd.eq_swap]
  cases u with
  | notANumber => cases v <;> rfl
  | infinity s =>
    cases v with
    | infinity t => cases s <;> cases t <;> rfl
    | _ => cases s <;> rfl
  | zero s =>
    cases v with
    | infinity t => cases t <;> rfl
    | finite t n d hn => cases t <;> rfl
    | _ => rfl
  | finite s m e hm =>
    cases v with
    | notANumber => rfl
    | infinity t => cases t <;> rfl
    | zero t => cases s <;> rfl
    | finite t n d hn =>
      cases s with
      | positive =>
        cases t with
        | positive => exact congrArg some (hswap e d m n)
        | negative => rfl
      | negative =>
        cases t with
        | positive => rfl
        | negative => exact congrArg some (hswap d e n m).symm

theorem neg_lt_iff_gt {a b : Float} : -a < -b ↔ b < a := by
  rw [lt_iff_compare, lt_iff_compare, unpacked_neg, unpacked_neg, compare_neg]

theorem exists_infinity {a : Float} (hnumber : a.isNaN = false) (h : ¬ a.isFinite = true) :
    ∃ s, unpacked a = .infinity s := by
  change (unpacked a).isNaN = false at hnumber
  change ¬ (unpacked a).isFinite = true at h
  cases hu : unpacked a with
  | infinity s => exact ⟨s, rfl⟩
  | notANumber => simp [hu, UnpackedFloat.isNaN] at hnumber
  | _ => exact absurd (congrArg UnpackedFloat.isFinite hu) h

theorem lt_positive_infinity {a b : Float} (ha : a.isFinite = true)
    (hb : unpacked b = .infinity .positive) : a < b := by
  change (unpacked a).isFinite = true at ha
  rw [lt_iff_compare, hb]
  cases hu : unpacked a with
  | infinity s => simp [hu, UnpackedFloat.isFinite] at ha
  | notANumber => simp [hu, UnpackedFloat.isFinite] at ha
  | _ => rfl

theorem infinite_of_lt {a b : Float} (h : a < b) (hb : ¬ b.isFinite = true) :
    unpacked b = .infinity .positive := by
  obtain ⟨s, hs⟩ := exists_infinity (not_isNaN_of_lt h).2 hb
  rw [lt_iff_compare, hs] at h
  cases s with
  | positive => exact hs
  | negative =>
    generalize unpacked a = u at h
    cases u with
    | infinity t => cases t <;> exact absurd h (by decide)
    | _ => simp [UnpackedFloat.compare] at h

theorem infinite_of_gt {a b : Float} (h : b < a) (hb : ¬ b.isFinite = true) :
    unpacked b = .infinity .negative := by
  rw [← isFinite_neg] at hb
  exact neg_eq_infinity_iff.1 (infinite_of_lt (neg_lt_iff_gt.2 h) hb)

theorem infinity_of_le {a b : Float} (ha : unpacked a = .infinity .positive) (h : a ≤ b) :
    unpacked b = .infinity .positive := by
  rw [le_iff_compare, ha] at h
  generalize unpacked b = u at h
  cases u with
  | infinity s =>
    cases s with
    | positive => rfl
    | negative => exact absurd h (by decide)
  | _ => simp [UnpackedFloat.compare] at h

theorem abs_eq_infinity {a : Float} (hnumber : a.abs.isNaN = false)
    (h : ¬ a.abs.isFinite = true) : unpacked a.abs = .infinity .positive := by
  obtain ⟨s, hs⟩ := exists_infinity hnumber h
  rw [unpacked_abs] at hs ⊢
  cases hu : unpacked a with
  | infinity t => rfl
  | _ => simp [hu, UnpackedFloat.abs] at hs

theorem isFinite_of_abs_le {a b : Float} (h : a.abs ≤ b) (hb : b.isFinite = true) :
    a.isFinite = true := by
  rw [← isFinite_abs]
  by_contra hinfinite
  have hinfinity := infinity_of_le (abs_eq_infinity (not_isNaN_of_le h).1 hinfinite) h
  change (unpacked b).isFinite = true at hb
  rw [hinfinity] at hb
  cases hb

theorem isFinite_abs_of_lt {a b : Float} (h : a.abs < b) : a.abs.isFinite = true := by
  by_contra hinfinite
  have ha := abs_eq_infinity (not_isNaN_of_lt h).1 hinfinite
  have hb := infinity_of_le ha (le_of_lt h)
  rw [lt_iff_compare, ha, hb] at h
  cases h

theorem abs_ne_negative_zero (a : Float) : unpacked a.abs ≠ .zero .negative := by
  rw [unpacked_abs]
  cases unpacked a <;> simp [UnpackedFloat.abs]

theorem abs_eq_of_le {a b : Float} (h : a.abs ≤ b.abs) (h' : b.abs ≤ a.abs) : a.abs = b.abs := by
  obtain ⟨ha, hb⟩ := not_isNaN_of_le h
  have hrank := le_antisymm ((le_iff_rank ha hb).1 h) ((le_iff_rank hb ha).1 h')
  have hequal : (a.abs == b.abs) = true := by
    change ((unpacked a.abs).compare (unpacked b.abs) == some .eq) = true
    rw [(compare_iff_rank ha hb).2.2 hrank]
    rfl
  obtain ⟨-, -, hsame | ⟨-, hzero⟩ | ⟨hzero, -⟩⟩ := Float.beq_iff_ne_nan_and_eq.1 hequal
  · exact hsame
  · exact absurd (congrArg unpacked hzero) (abs_ne_negative_zero b)
  · exact absurd (congrArg unpacked hzero) (abs_ne_negative_zero a)

end RootFinding.Binary64
