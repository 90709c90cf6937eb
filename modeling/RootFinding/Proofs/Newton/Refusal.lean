import RootFinding.Proofs.DenseMatrix
import RootFinding.Proofs.Linear.Finite
import RootFinding.Proofs.Newton.Trail

/-!
# Steps that are refused

A step is taken only with a direction that is finite in every component, and such a direction
vouches for the system it solves: the residual is finite, no entry of the Jacobian is NaN, and no
row and no column of the Jacobian is zero. So from any other point the step is refused, as singular
or as not finite. A system that leaves a row of the Jacobian as it was handed to it is refused at
its first step, since the row was handed to it as zeros.
-/

namespace RootFinding.Newton

variable {σ ε : Type}

section Equations

variable {α : Type} [Neg α]

theorem mem_equations {rows : List (List α)} {values : List α} {i : Nat} {row : List α} {a : α}
    (hrow : rows[i]? = some row) (ha : values[i]? = some a) :
    (⟨row, -a⟩ : Linear.Equation α) ∈ equations rows values := by
  refine List.mem_of_getElem? (i := i) ?_
  rw [equations, List.getElem?_zipWith, hrow, ha]

theorem coefficients_of_mem_equations {rows : List (List α)} {values : List α}
    {e : Linear.Equation α} (h : e ∈ equations rows values) : e.coefficients ∈ rows := by
  rw [equations, ← List.map_uncurry_zip_eq_zipWith] at h
  obtain ⟨⟨row, a⟩, hmem, rfl⟩ := List.mem_map.1 h
  exact (List.of_mem_zip hmem).1

theorem exists_equation {J : DenseMatrix α} {values : List α} {i : Nat} (hi : i < J.rows)
    (hvalues : values.length = J.rows) :
    ∃ e ∈ equations J.toRows values, e.coefficients = J.row i :=
  ⟨_, mem_equations (DenseMatrix.getElem?_toRows hi)
    (List.getElem?_eq_getElem (hvalues.symm ▸ hi)), rfl⟩

theorem exists_row {J : DenseMatrix α} {values : List α} {e : Linear.Equation α}
    (h : e ∈ equations J.toRows values) : ∃ i < J.rows, e.coefficients = J.row i := by
  obtain ⟨i, hi, hrow⟩ := List.mem_map.1 (coefficients_of_mem_equations h)
  exact ⟨i, List.mem_range.1 hi, hrow.symm⟩

end Equations

theorem isFinite_of_direction {jacobian : List (List Float)} {residual d : List Float}
    (hlength : jacobian.length = residual.length) (h : direction? jacobian residual = some d)
    (hd : d.all Float.isFinite = true) : residual.all Float.isFinite = true := by
  have hvalues := Linear.isFinite_values rfl h (List.all_eq_true.1 hd)
  refine List.all_eq_true.2 fun a ha => (Binary64.isFinite_neg a).symm.trans ?_
  obtain ⟨i, hi, rfl⟩ := List.mem_iff_getElem.1 ha
  have hrow : i < jacobian.length := by omega
  have hmem := mem_equations (List.getElem?_eq_getElem hrow) (List.getElem?_eq_getElem hi)
  have hvalue := hvalues _ hmem
  exact hvalue

namespace Point

theorem Square.equations {n : Nat} {p : Point} (hp : p.Square n) :
    Linear.Square n (equations p.jacobian.toRows p.residual) where
  length := by
    rw [Newton.equations, List.length_zipWith, DenseMatrix.length_toRows, hp.rows,
      hp.length_residual, Nat.min_self]
  width := by
    intro e he
    obtain ⟨i, hi, hrow⟩ := exists_row he
    rw [hrow, DenseMatrix.length_row hi, hp.cols]

theorem Square.direction_eq {n : Nat} {p : Point} (hp : p.Square n) :
    direction? p.jacobian.toRows p.residual =
      Linear.solveSized n (Newton.equations p.jacobian.toRows p.residual) := by
  rw [direction?, Linear.solve, hp.equations.length]

def Zeros (entry : Nat → Option Float) : Prop := ∀ j a, entry j = some a → (a == 0) = true

theorem Zeros.zeroOrNaN {entry : Nat → Option Float} (h : Zeros entry) (j : Nat) :
    Binary64.ZeroOrNaN ((entry j).getD 0) := by
  cases ha : entry j with
  | none => exact Binary64.zeroOrNaN_zero
  | some a => exact Binary64.zeroOrNaN_of_beq (h j a ha)

section Direction

variable {n : Nat} {p : Point} {d : List Float}

theorem not_isNaN_of_direction (hp : p.Square n)
    (h : direction? p.jacobian.toRows p.residual = some d) (hd : d.all Float.isFinite = true)
    {i j : Nat} {a : Float} (ha : p.jacobian.get? i j = some a) : a.isNaN = false := by
  have hi : i < p.jacobian.rows := by
    by_contra hout
    rw [DenseMatrix.get?_eq_none (fun h => hout h.1)] at ha
    cases ha
  obtain ⟨e, he, hrow⟩ := exists_equation hi (hp.length_residual.trans hp.rows.symm)
  rw [← DenseMatrix.getElem?_row hi, ← hrow] at ha
  rw [hp.direction_eq] at h
  exact Linear.not_isNaN_coefficients hp.equations h (List.all_eq_true.1 hd) e he a
    (List.mem_of_getElem? ha)

theorem not_zero_row (hp : p.Square n)
    (h : direction? p.jacobian.toRows p.residual = some d) (hd : d.all Float.isFinite = true)
    {i : Nat} (hi : i < n) : ¬ Zeros (p.jacobian.get? i) := by
  intro hzeros
  have hrows : i < p.jacobian.rows := hp.rows.symm ▸ hi
  obtain ⟨e, he, hrow⟩ := exists_equation hrows (hp.length_residual.trans hp.rows.symm)
  rw [hp.direction_eq] at h
  refine Linear.not_missing_equation hp.equations.length h (List.all_eq_true.1 hd) e he fun j => ?_
  rw [hrow, List.getD_eq_getElem?_getD, DenseMatrix.getElem?_row hrows]
  exact hzeros.zeroOrNaN j

theorem not_zero_column (hp : p.Square n)
    (h : direction? p.jacobian.toRows p.residual = some d) (hd : d.all Float.isFinite = true)
    {j : Nat} (hj : j < n) : ¬ Zeros (p.jacobian.get? · j) := by
  intro hzeros
  rw [hp.direction_eq] at h
  refine Linear.not_unused_unknown hp.equations.length h (List.all_eq_true.1 hd) hj fun e he => ?_
  obtain ⟨i, hi, hrow⟩ := exists_row he
  rw [hrow, List.getD_eq_getElem?_getD, DenseMatrix.getElem?_row hi]
  exact hzeros.zeroOrNaN i

end Direction

def Refused (ε : Type) (p : Point) : Prop :=
  (p.advance : Except (Failure ε) Point) = .error (.singularJacobian (p.index + 1)) ∨
    (p.advance : Except (Failure ε) Point) = .error (.nonFiniteStep (p.index + 1))

theorem refused_of_directions {p : Point}
    (h : ∀ d, direction? p.jacobian.toRows p.residual = some d → ¬ d.all Float.isFinite = true) :
    p.Refused ε := by
  unfold Refused advance finiteStep
  cases hd : direction? p.jacobian.toRows p.residual with
  | none => exact Or.inl rfl
  | some d =>
    have hinfinite := h d hd
    simp only [if_neg hinfinite]
    exact Or.inr rfl

theorem Refused.next {f : System σ ε} {s : σ} {p : Point} (h : p.Refused ε) :
    ∃ e, p.next f s = (.error e, s) := by
  rcases h with h | h
  · exact ⟨_, by rw [Point.next, h]⟩
  · exact ⟨_, by rw [Point.next, h]⟩

theorem advance_vouches {n : Nat} {p : Point} (hp : p.Square n) :
    (((∃ a ∈ p.residual, a.isFinite = false) ∨
        ∃ i j a, p.jacobian.get? i j = some a ∧ a.isNaN = true) → p.Refused ε) ∧
      ∀ q, (p.advance : Except (Failure ε) Point) = .ok q →
        (∀ a ∈ q.step.direction, a.isFinite = true) ∧ q.step.length.isNaN = false ∧
          Binary64.signBit q.step.length = false := by
  constructor
  · intro hbad
    refine refused_of_directions fun d h hd => ?_
    rcases hbad with ⟨a, ha, hinfinite⟩ | ⟨i, j, a, ha, hnan⟩
    · have hlength : p.jacobian.toRows.length = p.residual.length := by
        rw [DenseMatrix.length_toRows, hp.rows, hp.length_residual]
      have hfinite := List.all_eq_true.1 (isFinite_of_direction hlength h hd) a ha
      rw [hfinite] at hinfinite
      cases hinfinite
    · have hnumber := not_isNaN_of_direction hp h hd ha
      rw [hnan] at hnumber
      cases hnumber
  · intro q hq
    obtain ⟨step, hstep, rfl⟩ := advance_eq_ok hq
    obtain ⟨-, hfinite, hlength⟩ := finiteStep_eq_ok hstep
    have hunsigned := unsigned_stepLength hfinite
    rw [← hlength] at hunsigned
    exact ⟨List.all_eq_true.1 hfinite, hunsigned.isNaN, hunsigned.signBit⟩

def nanInCorner : Point := { blank [0, 0] with
  residual := [1, 1]
  jacobian := .ofFn 2 2 fun i j => if i = 1 ∧ j = 1 then notANumber else 1 }

def twoInCorner : Point := { blank [0, 0] with
  residual := [1, 1]
  jacobian := .ofFn 2 2 fun i j => if i = 1 ∧ j = 1 then 2 else 1 }

theorem nanInCorner_refused :
    (nanInCorner.Square 2 ∧ nanInCorner.Refused String) ∧
    ∃ q, (twoInCorner.advance : Except (Failure String) Point) = .ok q ∧
      twoInCorner.Square 2 ∧ (∀ a ∈ q.step.direction, a.isFinite = true) ∧
        q.step.length.isNaN = false ∧ Binary64.signBit q.step.length = false := by
  constructor
  · have hsquare : nanInCorner.Square 2 := ⟨rfl, rfl, rfl, rfl⟩
    exact ⟨hsquare, (advance_vouches hsquare).1 (Or.inr ⟨1, 1, notANumber, rfl, rfl⟩)⟩
  · have hsquare : twoInCorner.Square 2 := ⟨rfl, rfl, rfl, rfl⟩
    have htaken : (twoInCorner.advance : Except (Failure String) Point).isOk = true := by
      decide +kernel
    cases hq : (twoInCorner.advance : Except (Failure String) Point) with
    | error e =>
      rw [hq] at htaken
      cases htaken
    | ok q => exact ⟨q, rfl, hsquare, (advance_vouches hsquare).2 q hq⟩

end Point

/-- An evaluation that succeeds and keeps the shape of the Jacobian leaves the row as it was. -/
def LeavesRow (f : System σ ε) (i : Nat) : Prop :=
  ∀ s x fx jx gx kx s', f.both.run s x (fx, jx) = ⟨none, (gx, kx), s'⟩ →
    kx.rows = jx.rows → kx.cols = jx.cols → ∀ j, kx.get? i j = jx.get? i j

theorem Point.Starts.zeros {f : System σ ε} {s s' : σ} {start : List Float} {p : Point}
    (h : Point.Starts f s start p s') {i : Nat} (hf : LeavesRow f i) :
    Point.Zeros (p.jacobian.get? i) := by
  intro j a ha
  rw [hf _ _ _ _ _ _ _ h.reply h.square.rows h.square.cols] at ha
  rw [DenseMatrix.eq_of_get?_filled ha]
  rfl

theorem trail_of_refused (f : System σ ε) (t : Tolerances) (remaining : Nat) (s : σ) {p : Point}
    (h : p.Refused ε) : (trail f t remaining s p).points = [] := by
  cases remaining with
  | zero => rfl
  | succ remaining =>
    by_cases hrest : p.rests t = true
    · rw [trail_of_rests f hrest]
    · obtain ⟨e, hnext⟩ := h.next (f := f) (s := s)
      rw [trail_of_error (eq_false_of_ne_true hrest) hnext]

theorem Point.refused_of_zeros {n i : Nat} {p : Point} (hp : p.Square n) (hi : i < n)
    (h : Point.Zeros (p.jacobian.get? i) ∨ Point.Zeros (p.jacobian.get? · i)) : p.Refused ε := by
  refine refused_of_directions fun d hd hfinite => ?_
  rcases h with hrow | hcolumn
  · exact not_zero_row hp hd hfinite hi hrow
  · exact not_zero_column hp hd hfinite hi hcolumn

theorem zeros_refused :
    (∀ (n i : Nat) (p : Point), p.Square n → i < n →
      Point.Zeros (p.jacobian.get? i) ∨ Point.Zeros (p.jacobian.get? · i) → p.Refused ε) ∧
    ∀ (f : System σ ε) (s : σ) (start : List Float) (o : Settings) (sink : Sink) (i : Nat),
      i < start.length → LeavesRow f i →
        ∀ r, (solve f s start o sink).result = .ok r → r.iterations = 0 := by
  refine ⟨fun n i p hp hi h => Point.refused_of_zeros hp hi h, ?_⟩
  intro f s start o sink i hi hf r hr
  obtain ⟨p, s', hstart, -, -, hends, -⟩ := trail_of_solve_ok hr
  have hp := Point.starts_of_start hstart
  have hrefused : p.Refused ε := Point.refused_of_zeros hp.square hi (Or.inl (hp.zeros hf))
  rw [hends.iterations, Trail.last, trail_of_refused f _ _ _ hrefused]
  exact hp.index

def oneEquation : System Unit String :=
  .plain ⟨fun s x fx => ⟨none, fx.set 0 (x.getD 0 0 - 1), s⟩, fun _ _ _ => List.length_set⟩
    fun s _ jx => ⟨none, jx.set 0 0 1, s⟩

theorem leavesRow_oneEquation : LeavesRow oneEquation 1 := by
  intro s x fx jx gx kx s' hrun hrows hcols j
  have hjacobian : kx = jx.set 0 0 1 := by
    have hbuffer := congrArg (fun reply => reply.buffer.2) hrun
    exact hbuffer.symm
  by_cases hin : 1 < jx.rows ∧ j < jx.cols
  · rw [hjacobian, DenseMatrix.get?_set jx 1 hin.1 hin.2, if_neg (by simp)]
  · rw [DenseMatrix.get?_eq_none hin, DenseMatrix.get?_eq_none (by rwa [hrows, hcols])]

theorem oneEquation_refused :
    (∃ p : Point, p.Square 2 ∧ Point.Zeros (p.jacobian.get? · 1) ∧ p.Refused String) ∧
    ∃ r, (solve oneEquation () [1, 0.5] {} .unlimited).result = .ok r ∧
      LeavesRow oneEquation 1 ∧ r.iterations = 0 := by
  obtain ⟨hpoints, hsolves⟩ := zeros_refused (σ := Unit) (ε := String)
  constructor
  · have hsquare : (Point.blank [0, 0]).Square 2 := ⟨rfl, rfl, rfl, rfl⟩
    have hzeros : Point.Zeros ((Point.blank [0, 0]).jacobian.get? · 1) := by
      intro j a ha
      rw [DenseMatrix.eq_of_get?_filled ha]
      rfl
    exact ⟨_, hsquare, hzeros, hpoints 2 1 _ hsquare (by decide) (Or.inr hzeros)⟩
  · obtain ⟨r, hr, -⟩ := Outcome.ok_of_any (solve oneEquation () [1, 0.5] {} .unlimited)
      (fun _ => true) (by decide +kernel)
    exact ⟨r, hr, leavesRow_oneEquation,
      hsolves oneEquation () [1, 0.5] {} .unlimited 1 (by decide) leavesRow_oneEquation r hr⟩

end RootFinding.Newton
