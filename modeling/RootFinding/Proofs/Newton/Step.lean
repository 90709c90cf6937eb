import RootFinding.Newton.Point
import RootFinding.Proofs.Linear.Equation

/-!
# What one Newton step does

Every move of the iteration is stated here once, guards included: which point the evaluation of
the start gives, and which point follows another. The later statements about whole runs use
these and never open an evaluation or a linear solve again. A solution has one component to an
equation, so a step keeps the number of components, and a point stays as square as it was.
-/

namespace RootFinding

theorem DenseMatrix.length_toRows {α : Type} (m : DenseMatrix α) : m.toRows.length = m.rows := by
  simp [DenseMatrix.toRows]

namespace Newton

theorem length_direction? {α : Type} [Add α] [Mul α] [Neg α] [Div α] [OfNat α 0] [OfNat α 1]
    [Linear.Magnitude α] {jacobian : List (List α)} {residual d : List α}
    (hd : direction? jacobian residual = some d) :
    d.length = min jacobian.length residual.length := by
  rw [Linear.length_solve hd, equations, List.length_zipWith]

theorem finiteStep_eq_ok {jacobian : DenseMatrix Float} {residual : List Float} {step : Step}
    (h : finiteStep jacobian residual = .ok step) :
    direction? jacobian.toRows residual = some step.direction ∧
      step.direction.all Float.isFinite = true ∧ step.length = stepLength step.direction := by
  unfold finiteStep at h
  split at h
  · cases h
  · next d hd =>
    split at h
    · next hfinite =>
      cases h
      exact ⟨hd, hfinite, rfl⟩
    · cases h

variable {σ ε : Type}

namespace Point

structure Square (n : Nat) (p : Point) : Prop where
  length_x : p.x.length = n
  length_residual : p.residual.length = n
  rows : p.jacobian.rows = n
  cols : p.jacobian.cols = n

theorem evaluate_eq_ok {f : System σ ε} {p q : Point} {s s' : σ}
    (h : p.evaluate f s = (.ok q, s')) :
    f.both.run s p.x (p.residual, p.jacobian) = ⟨none, (q.residual, q.jacobian), s'⟩ ∧
      q.jacobian.rows = p.x.length ∧ q.jacobian.cols = p.x.length ∧
      q = { p with
        residual := q.residual, jacobian := q.jacobian, evaluations := p.evaluations + 1 } := by
  simp only [evaluate] at h
  generalize f.both.run s p.x (p.residual, p.jacobian) = reply at h ⊢
  obtain ⟨failure, buffer, state⟩ := reply
  cases failure with
  | some e => cases h
  | none =>
    dsimp only at h
    split at h
    · next hshape =>
      cases h
      exact ⟨rfl, hshape.1, hshape.2, rfl⟩
    · cases h

theorem length_residual_of_run {f : System σ ε} {s s' : σ} {x fx gx : List Float}
    {jx kx : DenseMatrix Float} (h : f.both.run s x (fx, jx) = ⟨none, (gx, kx), s'⟩) :
    gx.length = fx.length := by
  simpa [h] using f.both.length_run s x fx jx

/-- `p` is the start `x`, evaluated on zeros, from a state `s` that the evaluation turns to `s'`. -/
structure Starts (f : System σ ε) (s : σ) (x : List Float) (p : Point) (s' : σ) : Prop where
  index : p.index = 0
  place : p.x = x
  reply : f.both.run s x (List.replicate x.length 0, .filled x.length x.length 0) =
    ⟨none, (p.residual, p.jacobian), s'⟩
  square : p.Square x.length
  finite : p.residual.all Float.isFinite = true
  length : p.step.length = notANumber
  evaluations : p.evaluations = 1

theorem start_eq_ok {f : System σ ε} {s s' : σ} {x : List Float} {p : Point}
    (h : start f s x = (.ok p, s')) :
    (blank x).evaluate f s = (.ok p, s') ∧ p.residual.all Float.isFinite = true := by
  unfold start at h
  split at h
  · cases h
  · next q t hevaluate =>
    split at h
    · next hfinite =>
      cases h
      exact ⟨hevaluate, hfinite⟩
    · cases h

theorem start_eq_error {f : System σ ε} {s s' : σ} {x : List Float} {e : Failure ε}
    (h : start f s x = (.error e, s')) :
    (blank x).evaluate f s = (.error e, s') ∨
      e = .nonFiniteResidual ∧ ∃ p, (blank x).evaluate f s = (.ok p, s') := by
  unfold start at h
  split at h
  · next hevaluate =>
    cases h
    exact Or.inl hevaluate
  · next p t hevaluate =>
    split at h
    · cases h
    · cases h
      exact Or.inr ⟨rfl, p, hevaluate⟩

theorem starts_of_start {f : System σ ε} {s s' : σ} {x : List Float} {p : Point}
    (h : start f s x = (.ok p, s')) : Starts f s x p s' := by
  obtain ⟨hevaluate, hfinite⟩ := start_eq_ok h
  obtain ⟨hreply, hrows, hcols, hp⟩ := evaluate_eq_ok hevaluate
  have hlength := length_residual_of_run hreply
  rw [hp] at hfinite ⊢
  exact {
    index := rfl
    place := rfl
    reply := hreply
    square := ⟨rfl, by simpa [blank] using hlength, hrows, hcols⟩
    finite := hfinite
    length := rfl
    evaluations := rfl }

/-- `q` is reached from `p` by one step, from a state `s` that the evaluation turns to `s'`. -/
structure Follows (f : System σ ε) (p : Point) (s : σ) (q : Point) (s' : σ) : Prop where
  index : q.index = p.index + 1
  previous : q.previous = p.x
  direction : direction? p.jacobian.toRows p.residual = some q.step.direction
  finite : q.step.direction.all Float.isFinite = true
  length : q.step.length = stepLength q.step.direction
  place : q.x = List.zipWith (· + ·) p.x q.step.direction
  reply : f.both.run s q.x (p.residual, p.jacobian) = ⟨none, (q.residual, q.jacobian), s'⟩
  rows : q.jacobian.rows = q.x.length
  cols : q.jacobian.cols = q.x.length
  evaluations : q.evaluations = p.evaluations + 1

theorem advance_eq_ok {p q : Point} (h : (p.advance : Except (Failure ε) Point) = .ok q) :
    ∃ step, finiteStep p.jacobian p.residual = .ok step ∧
      q = { p with
        index := p.index + 1
        x := List.zipWith (· + ·) p.x step.direction
        previous := p.x
        step := step } := by
  unfold advance at h
  split at h
  · cases h
  · next step hstep =>
    cases h
    exact ⟨step, hstep, rfl⟩

theorem square_advance {n : Nat} {p q : Point} (hp : p.Square n)
    (h : (p.advance : Except (Failure ε) Point) = .ok q) : q.Square n := by
  obtain ⟨step, hstep, rfl⟩ := advance_eq_ok h
  have hlength : step.direction.length = n := by
    rw [length_direction? (finiteStep_eq_ok hstep).1, DenseMatrix.length_toRows, hp.rows,
      hp.length_residual, Nat.min_self]
  refine ⟨?_, hp.length_residual, hp.rows, hp.cols⟩
  rw [List.length_zipWith, hp.length_x, hlength, Nat.min_self]

theorem follows_of_next {f : System σ ε} {s s' : σ} {p q : Point}
    (h : p.next f s = (.ok q, s')) : Follows f p s q s' := by
  unfold next at h
  split at h
  · cases h
  · next moved hmoved =>
    obtain ⟨step, hstep, rfl⟩ := advance_eq_ok hmoved
    obtain ⟨hreply, hrows, hcols, hq⟩ := evaluate_eq_ok h
    obtain ⟨hdirection, hfinite, hlength⟩ := finiteStep_eq_ok hstep
    rw [hq]
    exact ⟨rfl, rfl, hdirection, hfinite, hlength, rfl, hreply, hrows, hcols, rfl⟩

theorem Follows.length_direction {f : System σ ε} {p q : Point} {s s' : σ}
    (h : Follows f p s q s') {n : Nat} (hp : p.Square n) : q.step.direction.length = n := by
  rw [length_direction? h.direction, DenseMatrix.length_toRows, hp.rows, hp.length_residual,
    Nat.min_self]

theorem Follows.square {f : System σ ε} {p q : Point} {s s' : σ} (h : Follows f p s q s')
    {n : Nat} (hp : p.Square n) : q.Square n := by
  have hx : q.x.length = n := by
    rw [h.place, List.length_zipWith, hp.length_x, h.length_direction hp, Nat.min_self]
  exact ⟨hx, (length_residual_of_run h.reply).trans hp.length_residual, h.rows.trans hx,
    h.cols.trans hx⟩

end Point

end Newton

end RootFinding
