import RootFinding.Proofs.Binary64.Unpacked
import RootFinding.Proofs.DenseMatrix
import RootFinding.Proofs.Linear.InPlace
import RootFinding.Proofs.Newton.Step

/-!
# The step by elimination

Both arithmetics allow the elimination in place, so the direction of a step is what one square array
and one column give by it, rounding for rounding.

Over the rationals the elimination loses no solution and gains none. What the chosen row leaves of
the others has the solutions of the whole, less their first unknown, which the chosen row
determines. So the vector found is the only solution. The chosen row has the leading entry of
greatest magnitude. If that is zero the whole column is, and the first unknown may be anything: a
singular outcome always comes with a vector other than zero that the matrix turns to zero, and the
determinant tells the two outcomes apart.
-/

namespace RootFinding

namespace Linear

open Matrix

instance : LawfulMagnitude Float where
  isZero_of_exceeds {a b} h := by
    have hpos := Binary64.pos_of_abs_lt (of_decide_eq_true h)
    refine eq_false_of_ne_true fun hzero => ?_
    obtain ⟨-, -, rfl | ⟨rfl, -⟩ | ⟨rfl, -⟩⟩ := Float.beq_iff_ne_nan_and_eq.1 hzero
    all_goals exact absurd hpos (by decide)

theorem exceeds_iff {a b : ℚ} : Magnitude.exceeds a b = true ↔ |b| < |a| := by
  have habs : ∀ c : ℚ, c.abs = |c| := by
    intro c
    rw [Rat.abs]
    split
    · next h => exact (abs_of_nonneg h).symm
    · next h => exact (abs_of_neg (not_le.1 h)).symm
  rw [← habs, ← habs]
  exact decide_eq_true_iff

instance : LawfulMagnitude ℚ where
  isZero_of_exceeds {a b} h := by
    have hpos : 0 < |a| := (abs_nonneg b).trans_lt (exceeds_iff.1 h)
    exact decide_eq_false (abs_pos.1 hpos)

namespace Tableau

variable {n : ℕ}

def Solves (t : Tableau n ℚ) (x : Fin n → ℚ) : Prop := ∀ r, ∑ c, t.entry r c * x c = t.value r

theorem solves_swap (t : Tableau n ℚ) (i p : Fin n) (x : Fin n → ℚ) :
    (t.swap i p).Solves x ↔ t.Solves x :=
  (Equiv.swap i p).forall_congr fun _ => Iff.rfl

theorem remainder_eq_sub (t : Tableau (n + 1) ℚ) (y : Fin n → ℚ) :
    t.remainder (List.finRange n) y = t.value 0 - ∑ c : Fin n, t.entry 0 c.succ * y c := by
  rw [Fin.sum_univ_def, remainder]
  generalize List.finRange n = later
  induction later with
  | nil => simp
  | cons c later ih =>
    rw [List.foldr_cons, ih, List.map_cons, List.sum_cons]
    ring

theorem eq_prepend_iff {t : Tableau (n + 1) ℚ} (hlead : t.entry 0 0 ≠ 0) (a : ℚ) (y : Fin n → ℚ) :
    Fin.cons a y = t.prepend y ↔
      t.entry 0 0 * a + ∑ c : Fin n, t.entry 0 c.succ * y c = t.value 0 := by
  rw [prepend, remainder_eq_sub, Fin.cons_inj, and_iff_left rfl, eq_div_iff hlead,
    eq_sub_iff_add_eq, mul_comm a]

theorem sum_rest (t : Tableau (n + 1) ℚ) (r : Fin n) (y : Fin n → ℚ) :
    ∑ c, t.rest.entry r c * y c = ∑ c : Fin n, t.entry r.succ c.succ * y c -
      (∑ c : Fin n, t.entry 0 c.succ * y c) * (t.entry r.succ 0 * (1 / t.entry 0 0)) := by
  rw [Finset.sum_mul, ← Finset.sum_sub_distrib]
  refine Finset.sum_congr rfl fun c _ => ?_
  simp [rest, tail, pack, forward]
  ring

theorem solves_cons {t : Tableau (n + 1) ℚ} (hlead : t.entry 0 0 ≠ 0) (a : ℚ) (y : Fin n → ℚ) :
    t.Solves (Fin.cons a y) ↔ Fin.cons a y = t.prepend y ∧ t.rest.Solves y := by
  rw [eq_prepend_iff hlead, Solves, Fin.forall_fin_succ]
  simp only [Fin.sum_univ_succ, Fin.cons_zero, Fin.cons_succ]
  refine and_congr_right fun hrow => forall_congr' fun r => ?_
  have hvalue : t.rest.value r =
      t.value r.succ - t.value 0 * (t.entry r.succ 0 * (1 / t.entry 0 0)) := by
    simp [rest, tail, pack, forward]
    ring
  have hpivot :
      t.entry 0 0 * a * (t.entry r.succ 0 * (1 / t.entry 0 0)) = t.entry r.succ 0 * a := by
    field_simp
  rw [sum_rest, hvalue, ← hrow]
  constructor
  · intro h
    linear_combination h + hpivot
  · intro h
    linear_combination h - hpivot

theorem solves_prepend {t : Tableau (n + 1) ℚ} (hlead : t.entry 0 0 ≠ 0) {y : Fin n → ℚ}
    (h : t.rest.Solves y) : t.Solves (t.prepend y) := (solves_cons hlead _ y).2 ⟨rfl, h⟩

theorem solves_iff_of_solve {t : Tableau n ℚ} {d : Fin n → ℚ} (h : t.solve = some d)
    (x : Fin n → ℚ) : t.Solves x ↔ x = d := by
  induction n with
  | zero => exact iff_of_true (fun r => r.elim0) (funext fun r => r.elim0)
  | succ n ih =>
    rw [solve_succ] at h
    split at h
    · cases h
    · next hlead =>
      obtain ⟨y, hy, rfl⟩ := Option.map_eq_some_iff.1 h
      have hnonzero : t.pivoted.entry 0 0 ≠ 0 := fun hzero => hlead (decide_eq_true hzero)
      refine Fin.consCases (fun a z => ?_) x
      rw [← solves_swap t 0 (t.pivotRow 0), ← pivoted, solves_cons hnonzero, ih hy]
      constructor
      · rintro ⟨hx, rfl⟩
        exact hx
      · intro hx
        have htail : z = y := congrArg Fin.tail hx
        rw [htail] at hx ⊢
        exact ⟨hx, rfl⟩

theorem abs_le_stronger (t : Tableau n ℚ) (k p r : Fin n) :
    |t.entry p k| ≤ |t.entry (t.stronger k p r) k| ∧
      (k < r → |t.entry r k| ≤ |t.entry (t.stronger k p r) k|) := by
  rw [stronger]
  split
  · next h => exact ⟨(exceeds_iff.1 h.2).le, fun _ => le_rfl⟩
  · next h => exact ⟨le_rfl, fun hbelow => not_lt.1 fun hlt => h ⟨hbelow, exceeds_iff.2 hlt⟩⟩

theorem abs_le_scan (t : Tableau n ℚ) (k p : Fin n) (rows : List (Fin n)) :
    |t.entry p k| ≤ |t.entry (rows.foldl (t.stronger k) p) k| ∧
      ∀ r ∈ rows, k < r → |t.entry r k| ≤ |t.entry (rows.foldl (t.stronger k) p) k| := by
  induction rows generalizing p with
  | nil => simp
  | cons r rows ih =>
    obtain ⟨hp, hr⟩ := t.abs_le_stronger k p r
    obtain ⟨hkept, hrows⟩ := ih (t.stronger k p r)
    exact ⟨hp.trans hkept, List.forall_mem_cons.2 ⟨fun hbelow => (hr hbelow).trans hkept, hrows⟩⟩

theorem abs_le_pivotRow (t : Tableau n ℚ) {k r : Fin n} (h : k ≤ r) :
    |t.entry r k| ≤ |t.entry (t.pivotRow k) k| := by
  obtain ⟨htop, hrows⟩ := t.abs_le_scan k k (List.finRange n)
  rcases h.eq_or_lt with rfl | hbelow
  · exact htop
  · exact hrows r (List.mem_finRange r) hbelow

def homogeneous (t : Tableau n ℚ) : Tableau n ℚ := { t with value := 0 }

theorem rest_homogeneous (t : Tableau (n + 1) ℚ) : t.homogeneous.rest = t.rest.homogeneous := by
  ext r
  · rfl
  · simp [homogeneous, rest, tail, pack, forward]

theorem exists_kernel_of_solve {t : Tableau n ℚ} (h : t.solve = none) :
    ∃ v ≠ 0, t.homogeneous.Solves v := by
  induction n with
  | zero => cases h
  | succ n ih =>
    rw [solve_succ] at h
    split at h
    · next hlead =>
      have hcolumn : ∀ r, t.entry r 0 = 0 := by
        intro r
        have hgreatest := t.abs_le_pivotRow (Fin.zero_le r)
        rw [← lead_pivoted, of_decide_eq_true hlead, abs_zero] at hgreatest
        exact abs_nonpos_iff.1 hgreatest
      refine ⟨Fin.cons 1 0, fun hzero => one_ne_zero (congrFun hzero 0), fun r => ?_⟩
      simp [homogeneous, Fin.sum_univ_succ, hcolumn]
    · next hlead =>
      obtain ⟨y, hy, hsolves⟩ := ih (Option.map_eq_none_iff.1 h)
      have hnonzero : t.pivoted.homogeneous.entry 0 0 ≠ 0 := fun hzero =>
        hlead (decide_eq_true hzero)
      rw [← rest_homogeneous] at hsolves
      have hpivoted := solves_prepend hnonzero hsolves
      exact ⟨_, fun hzero => hy (funext fun c => congrFun hzero c.succ),
        (solves_swap t.homogeneous 0 (t.pivotRow 0) _).1 hpivoted⟩

theorem solves_iff_mulVec (t : Tableau n ℚ) (x : Fin n → ℚ) :
    t.Solves x ↔ of t.entry *ᵥ x = t.value := funext_iff.symm

theorem solve_eq_none_iff (t : Tableau n ℚ) : t.solve = none ↔ (of t.entry).det = 0 := by
  rw [← exists_mulVec_eq_zero_iff]
  constructor
  · intro h
    obtain ⟨v, hv, hsolves⟩ := exists_kernel_of_solve h
    exact ⟨v, hv, (solves_iff_mulVec _ v).1 hsolves⟩
  · rintro ⟨v, hv, hkernel⟩
    cases hd : t.solve with
    | none => rfl
    | some d =>
      -- Adding a vector of the kernel to the solution would give another one.
      have hunique := solves_iff_of_solve hd
      have hsolves := (solves_iff_mulVec t d).1 ((hunique d).2 rfl)
      have hshifted : t.Solves (d + v) := by
        rw [solves_iff_mulVec, mulVec_add, hsolves, hkernel, add_zero]
      exact absurd (add_eq_left.1 ((hunique _).1 hshifted)) hv

end Tableau

end Linear

namespace Newton

open Linear Matrix

variable {n : ℕ}

def tableau {α : Type} [Neg α] (J : Fin n → Fin n → α) (f : Fin n → α) : Tableau n α where
  entry := J
  value r := -f r

theorem direction_eq_solve {α : Type} [Add α] [Mul α] [Neg α] [Div α] [OfNat α 0] [OfNat α 1]
    [Magnitude α] [LawfulMagnitude α] (J : Fin n → Fin n → α) (f : Fin n → α) :
    direction? (List.ofFn fun r => List.ofFn (J r)) (List.ofFn f) =
      (tableau J f).solve.map List.ofFn := by
  have hequations : equations (List.ofFn fun r => List.ofFn (J r)) (List.ofFn f) =
      (tableau J f).equations := by
    rw [equations, Tableau.zipWith_ofFn]
    rfl
  have hlength : (tableau J f).equations.length = n := List.length_ofFn
  rw [direction?, hequations, Linear.solve, hlength, Tableau.solveSized_equations]

example : (tableau ![![0, 2], ![3, 1]] ![(-4 : ℚ), -5]).solve = some ![1, 2] := by decide +kernel

theorem ofFn_getD {α : Type} {l : List α} (h : l.length = n) (a : α) :
    (List.ofFn fun i : Fin n => l.getD i a) = l := by
  subst h
  apply List.ext_getElem <;> simp

theorem Point.Square.direction_inPlace {p : Point} (hp : p.Square n) :
    direction? p.jacobian.toRows p.residual =
      (tableau (fun i j : Fin n => (p.jacobian.get? i j).getD 0)
        fun i => p.residual.getD i 0).solve.map List.ofFn := by
  have hlength : p.jacobian.toRows.length = n := by
    rw [DenseMatrix.length_toRows, hp.rows]
  have hrow : ∀ i : Fin n, p.jacobian.toRows.getD i [] =
      List.ofFn fun j : Fin n => (p.jacobian.get? i j).getD 0 := by
    intro i
    have hi : i < p.jacobian.rows := hp.rows.symm ▸ i.isLt
    rw [List.getD_eq_getElem?_getD, DenseMatrix.getElem?_toRows hi, Option.getD_some,
      ← ofFn_getD ((DenseMatrix.length_row hi).trans hp.cols) 0]
    simp only [List.getD_eq_getElem?_getD, DenseMatrix.getElem?_row hi]
  rw [← direction_eq_solve, ofFn_getD hp.length_residual, ← ofFn_getD hlength []]
  simp only [hrow]

def rows (J : Matrix (Fin n) (Fin n) ℚ) : List (List ℚ) := List.ofFn fun r => List.ofFn (J r)

theorem solve_tableau {J : Matrix (Fin n) (Fin n) ℚ} (h : J.det ≠ 0) (f : Fin n → ℚ) :
    ∃ d, (tableau J f).solve = some d ∧ ∀ d', J *ᵥ d' = -f ↔ d' = d := by
  cases hd : (tableau J f).solve with
  | none => exact absurd ((tableau J f).solve_eq_none_iff.1 hd) h
  | some d =>
    exact ⟨d, rfl, fun d' => ((tableau J f).solves_iff_mulVec d').symm.trans
      (Tableau.solves_iff_of_solve hd d')⟩

theorem direction_exact (n : ℕ) (J : Matrix (Fin n) (Fin n) ℚ) (f : Fin n → ℚ) :
    direction? (rows J) (List.ofFn f) = (tableau J f).solve.map List.ofFn ∧
    (direction? (rows J) (List.ofFn f) = none ↔ J.det = 0) ∧
    (J.det ≠ 0 → ∃ d, direction? (rows J) (List.ofFn f) = some (List.ofFn d) ∧
      ∀ d', J *ᵥ d' = -f ↔ d' = d) ∧
    (J.det ≠ 0 → ∀ x c, ∃ d, direction? (rows J) (List.ofFn (J *ᵥ x + c)) = some (List.ofFn d) ∧
      J *ᵥ (x + d) + c = 0) := by
  have hsolve : ∀ f, direction? (rows J) (List.ofFn f) = (tableau J f).solve.map List.ofFn :=
    direction_eq_solve J
  refine ⟨hsolve f, ?_, fun h => ?_, fun h x c => ?_⟩
  · rw [hsolve, Option.map_eq_none_iff]
    exact (tableau J f).solve_eq_none_iff
  · obtain ⟨d, hd, hunique⟩ := solve_tableau h f
    exact ⟨d, by rw [hsolve, hd]; rfl, hunique⟩
  · obtain ⟨d, hd, hunique⟩ := solve_tableau h (J *ᵥ x + c)
    refine ⟨d, by rw [hsolve, hd]; rfl, ?_⟩
    rw [mulVec_add, (hunique d).2 rfl]
    abel

/-- A first pivot from the second row, and a last one that is missing. -/
theorem direction_exact_swapped :
    (let J := !![0, 2, 1; 4, -2, 1; 2, 1, 3]
     J.det ≠ 0 ∧ ∀ x c, ∃ d, direction? (rows J) (List.ofFn (J *ᵥ x + c)) = some (List.ofFn d) ∧
      J *ᵥ (x + d) + c = 0) ∧
    (let J := !![0, 2, 1; 4, -2, 1; 4, 0, 2]
     J.det = 0 ∧ direction? (rows J) [1, 2, 3] = none) := by
  constructor
  · intro J
    have hdet : J.det ≠ 0 := by
      simp [J, det_fin_three]
      norm_num
    exact ⟨hdet, (direction_exact 3 J 0).2.2.2 hdet⟩
  · intro J
    have hdet : J.det = 0 := by
      simp [J, det_fin_three]
      norm_num
    exact ⟨hdet, (direction_exact 3 J ![1, 2, 3]).2.1.2 hdet⟩

end Newton

end RootFinding
