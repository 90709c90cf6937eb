import RootFinding.Proofs.Evaluator.Overwriting
import RootFinding.Proofs.Newton.Trail

/-!
# Runs of a system that answers by a value

Where a system answers by a value, an evaluated point holds the value at its place, and the point
after it can be told from the point alone: neither the state of the system nor the buffers that
earlier evaluations left are looked at.
-/

namespace RootFinding.Newton

variable {σ ε : Type}

def Point.evaluated (p : Point) :
    Except ε (List Float × DenseMatrix Float) → Except (Failure ε) Point
  | .error e => .error (.evaluation e)
  | .ok (residual, jacobian) =>
    if jacobian.IsSquare p.x.length then
      .ok { p with residual := residual, jacobian := jacobian, evaluations := p.evaluations + 1 }
    else .error (.jacobianShape p.x.length jacobian.rows jacobian.cols)

section Value

variable {f : System σ ε} {n : Nat} {value : List Float → Except ε (List Float × DenseMatrix Float)}

theorem Point.evaluate_fst (h : f.both.run.Answers n (SquareBuffers n) value) {p : Point}
    (hp : p.Square n) (s : σ) : (p.evaluate f s).1 = p.evaluated (value p.x) := by
  have hreply := h s p.x (p.residual, p.jacobian) hp.length_x
    ⟨hp.length_residual, hp.rows, hp.cols⟩
  unfold Point.evaluate Point.evaluated
  dsimp only
  cases hv : value p.x with
  | error e =>
    rw [hv] at hreply
    rw [hreply]
  | ok b =>
    rw [hv] at hreply
    rw [hreply.1, ← hreply.2]
    dsimp only
    split
    · next hshape => exact (if_pos hshape).symm
    · next hshape => exact (if_neg hshape).symm

def Point.successor (value : List Float → Except ε (List Float × DenseMatrix Float)) (p : Point) :
    Except (Failure ε) Point :=
  match (p.advance : Except (Failure ε) Point) with
  | .error e => .error e
  | .ok q => q.evaluated (value q.x)

theorem Point.next_fst (h : f.both.run.Answers n (SquareBuffers n) value) {p : Point}
    (hp : p.Square n) (s : σ) : (p.next f s).1 = p.successor value := by
  unfold Point.next Point.successor
  cases hq : (p.advance : Except (Failure ε) Point) with
  | error e => rfl
  | ok q => exact Point.evaluate_fst h (Point.square_advance hp hq) s

structure Point.Valued (n : Nat)
    (value : List Float → Except ε (List Float × DenseMatrix Float)) (p : Point) : Prop where
  square : p.Square n
  value : value p.x = .ok (p.residual, p.jacobian)

def Point.asFirst (p : Point) : Point :=
  { blank p.x with residual := p.residual, jacobian := p.jacobian, evaluations := 1 }

theorem Point.square_asFirst {p : Point} (hp : p.Square n) : p.asFirst.Square n :=
  ⟨hp.length_x, hp.length_residual, hp.rows, hp.cols⟩

theorem Point.start_fst (h : f.both.run.Answers n (SquareBuffers n) value) {p : Point}
    (hp : p.Valued n value) (hfinite : p.residual.all Float.isFinite = true) (s : σ) :
    (Point.start f s p.x).1 = .ok p.asFirst := by
  have hlength := hp.square.length_x
  have hblank : (Point.blank p.x).Square n :=
    ⟨hlength, List.length_replicate.trans hlength, hlength, hlength⟩
  have hshape : p.jacobian.IsSquare p.x.length :=
    ⟨hp.square.rows.trans hlength.symm, hp.square.cols.trans hlength.symm⟩
  have hevaluate := Point.evaluate_fst h hblank s
  have hplace : (Point.blank p.x).x = p.x := rfl
  rw [hplace, hp.value, Point.evaluated] at hevaluate
  replace hevaluate := hevaluate.trans (if_pos hshape)
  unfold Point.start
  generalize (Point.blank p.x).evaluate f s = reply at hevaluate ⊢
  obtain ⟨outcome, s'⟩ := reply
  obtain rfl := hevaluate
  dsimp only
  rw [if_pos hfinite]
  rfl

theorem value_of_run (h : f.both.run.Answers n (SquareBuffers n) value) {s s' : σ}
    {x : List Float} {b c : List Float × DenseMatrix Float} (hx : x.length = n)
    (hb : SquareBuffers n b) (hrun : f.both.run s x b = ⟨none, c, s'⟩) : value x = .ok c := by
  have hreply := h s x b hx hb
  rw [hrun] at hreply
  cases hv : value x with
  | error e =>
    rw [hv] at hreply
    cases hreply
  | ok v =>
    rw [hv] at hreply
    exact congrArg Except.ok hreply.2.symm

theorem Point.Starts.valued {s s' : σ} {x : List Float} {p : Point}
    (h : f.both.run.Answers x.length (SquareBuffers x.length) value)
    (hp : Point.Starts f s x p s') : p.Valued x.length value := by
  have hvalue := value_of_run h rfl ⟨List.length_replicate, rfl, rfl⟩ hp.reply
  exact ⟨hp.square, hp.place.symm ▸ hvalue⟩

theorem Point.Follows.valued (h : f.both.run.Answers n (SquareBuffers n) value) {s s' : σ}
    {p q : Point} (hp : p.Square n) (hq : Point.Follows f p s q s') : q.Valued n value :=
  ⟨hq.square hp, value_of_run h (hq.square hp).length_x
    ⟨hp.length_residual, hp.rows, hp.cols⟩ hq.reply⟩

theorem valued_last (h : f.both.run.Answers n (SquareBuffers n) value) (t : Tolerances) (k : Nat)
    (s : σ) {p : Point} (hp : p.Valued n value) : ((trail f t k s p).last p).Valued n value := by
  fun_induction trail f t k s p with
  | case1 s p => exact hp
  | case2 k s p hrest => exact hp
  | case3 k s p hmoves e s' hnext => exact hp
  | case4 k s p hmoves q s' hnext ih =>
    rw [Trail.last_after]
    exact ih ((Point.follows_of_next hnext).valued h hp.square)

end Value

end RootFinding.Newton
