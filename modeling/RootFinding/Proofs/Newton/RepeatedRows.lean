import RootFinding.Proofs.Linear.Choices
import RootFinding.Proofs.Newton.Refusal

/-!
# Jacobians with a repeated row

Two equal rows are noticed when one of them is chosen: of the other there is nothing left, so the
step is refused, unless the pivot times its reciprocal is rounded to another number than one.
Forty-nine is such a pivot. What is left of the other row is then a rounding error, and the step
that it leads to is taken.
-/

namespace RootFinding.Newton.Point

variable {ε : Type} {n : Nat} {p : Point}

theorem row_congr {J : DenseMatrix Float} {i i' : Nat} (hi : i < J.rows) (hi' : i' < J.rows)
    (h : ∀ j, J.get? i j = J.get? i' j) : J.row i = J.row i' := by
  refine List.ext_getElem? fun j => ?_
  rw [DenseMatrix.getElem?_row hi, DenseMatrix.getElem?_row hi', h j]

theorem Square.coefficients_equations (hp : p.Square n) :
    (Newton.equations p.jacobian.toRows p.residual).map Linear.Equation.coefficients =
      p.jacobian.toRows := by
  have hlength : p.jacobian.toRows.length ≤ p.residual.length := by
    rw [DenseMatrix.length_toRows, hp.rows, hp.length_residual]
  rw [Newton.equations, ← List.map_uncurry_zip_eq_zipWith, List.map_map]
  exact List.map_fst_zip hlength

/-- The pivots that meet an equal row, at any stage of the elimination, times their reciprocals are
one. -/
def TwinsRoundTrip (n : Nat) (p : Point) : Prop :=
  ∀ c ∈ Linear.choices n (equations p.jacobian.toRows p.residual),
    (∃ e ∈ c.2, e.coefficients = c.1.coefficients) → Linear.RoundTrips c.1.lead

theorem repeated_row_refused {i i' : Nat} (hp : p.Square n) (hi : i < n) (hi' : i' < n)
    (hne : i ≠ i') (hrows : ∀ j, p.jacobian.get? i j = p.jacobian.get? i' j)
    (htrips : p.TwinsRoundTrip n) : p.Refused ε := by
  refine refused_of_directions fun d hd hfinite => ?_
  rw [hp.direction_eq] at hd
  refine Linear.not_repeats hp.equations.length hd (List.all_eq_true.1 hfinite) htrips ?_
  rw [Linear.Repeats, hp.coefficients_equations]
  intro hdistinct
  rw [← hp.rows] at hi hi'
  have hsame := (DenseMatrix.getElem?_toRows hi).trans
    ((congrArg some (row_congr hi hi' hrows)).trans (DenseMatrix.getElem?_toRows hi').symm)
  exact hne ((List.getElem?_inj (by rwa [DenseMatrix.length_toRows]) hdistinct).1 hsame)

def parallel (a b c d : Float) : Point := { blank [0, 0] with
  residual := [c, d]
  jacobian := .ofFn 2 2 fun _ j => if j = 0 then a else b }

theorem square_parallel (a b c d : Float) : (parallel a b c d).Square 2 := ⟨rfl, rfl, rfl, rfl⟩

theorem parallel_rows (a b c d : Float) (j : Nat) :
    (parallel a b c d).jacobian.get? 0 j = (parallel a b c d).jacobian.get? 1 j := by
  by_cases hj : j < 2
  · rw [parallel, DenseMatrix.get?_ofFn _ (by decide) hj, DenseMatrix.get?_ofFn _ (by decide) hj]
  · rw [DenseMatrix.get?_eq_none fun h => hj h.2, DenseMatrix.get?_eq_none fun h => hj h.2]

theorem parallel_refused : (parallel 1 (-1) (-1) (-2)).TwinsRoundTrip 2 ∧
    (parallel 1 (-1) (-1) (-2)).Refused String := by
  have htrips : (parallel 1 (-1) (-1) (-2)).TwinsRoundTrip 2 := by
    unfold TwinsRoundTrip Linear.RoundTrips
    decide +kernel
  exact ⟨htrips, repeated_row_refused (square_parallel 1 (-1) (-1) (-2)) (by decide) (by decide)
    (by decide) (parallel_rows 1 (-1) (-1) (-2)) htrips⟩

theorem isFinite_parallel {a b c d : Float} (ha : a.isFinite = true) (hb : b.isFinite = true)
    {i j : Nat} {entry : Float} (h : (parallel a b c d).jacobian.get? i j = some entry) :
    entry.isFinite = true := by
  by_cases hin : i < 2 ∧ j < 2
  · rw [parallel, DenseMatrix.get?_ofFn _ hin.1 hin.2] at h
    cases h
    split
    · exact ha
    · exact hb
  · rw [DenseMatrix.get?_eq_none hin] at h
    cases h

theorem repeated_row_not_always_refused : ¬ ∀ (n : Nat) (p : Point), 2 ≤ n → p.Square n →
    (∀ i j a, p.jacobian.get? i j = some a → a.isFinite = true) →
    (∀ a ∈ p.residual, a.isFinite = true) →
    (∃ i < n, ∃ i' < n, i ≠ i' ∧ ∀ j, p.jacobian.get? i j = p.jacobian.get? i' j) →
      p.Refused String := by
  intro h
  have htaken : ((parallel 49 1 (-1) 0).advance : Except (Failure String) Point).isOk = true := by
    decide +kernel
  have hfinite (i j : Nat) (a : Float) (ha : (parallel 49 1 (-1) 0).jacobian.get? i j = some a) :
      a.isFinite = true := isFinite_parallel (by decide) (by decide) ha
  rcases h 2 (parallel 49 1 (-1) 0) (by decide) (square_parallel 49 1 (-1) 0) hfinite (by decide)
    ⟨0, by decide, 1, by decide, by decide, parallel_rows 49 1 (-1) 0⟩ with he | he
  · rw [he] at htaken
    cases htaken
  · rw [he] at htaken
    cases htaken

end RootFinding.Newton.Point
