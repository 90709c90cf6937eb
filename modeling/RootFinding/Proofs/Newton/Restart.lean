import RootFinding.Evaluator.Script
import RootFinding.Proofs.Newton.Certificate
import RootFinding.Proofs.Newton.Continuation
import RootFinding.Proofs.Newton.Valued

/-!
# Solving on from where a solve stopped

If a system overwrites its buffers, a run that starts where another one used up its iterations goes
through the points that the other would have gone through with more iterations: they differ in
their numbers only, and so do the failures. A run that starts where another one found a small
residual ends there at once.
-/

namespace RootFinding.Newton

variable {σ ε : Type}

def Failure.later (shift : Nat) : Failure ε → Failure ε
  | .singularJacobian k => .singularJacobian (shift + k)
  | .nonFiniteStep k => .nonFiniteStep (shift + k)
  | e => e

theorem Failure.later_zero (e : Failure ε) : e.later 0 = e := by
  cases e <;> simp [later]

theorem Failure.later_ofStep (fault : StepFault) (shift k : Nat) :
    (Failure.ofStep fault k : Failure ε).later shift = .ofStep fault (shift + k) := by
  cases fault <;> rfl

structure Point.MetLater (t : Tolerances) (shift : Nat) (p q : Point) : Prop where
  index : q.index = shift + p.index
  place : q.x = p.x
  residual : q.residual = p.residual
  jacobian : q.jacobian = p.jacobian
  evaluations : q.evaluations = shift + p.evaluations
  verdict : q.verdict t = p.verdict t

namespace Point.MetLater

variable {t : Tolerances} {shift shift' : Nat} {p q r : Point}

theorem refl (t : Tolerances) (p : Point) : p.MetLater t 0 p :=
  ⟨(Nat.zero_add _).symm, rfl, rfl, rfl, (Nat.zero_add _).symm, rfl⟩

theorem trans (h : p.MetLater t shift q) (h' : q.MetLater t shift' r) :
    p.MetLater t (shift' + shift) r where
  index := by rw [h'.index, h.index, Nat.add_assoc]
  place := h'.place.trans h.place
  residual := h'.residual.trans h.residual
  jacobian := h'.jacobian.trans h.jacobian
  evaluations := by rw [h'.evaluations, h.evaluations, Nat.add_assoc]
  verdict := h'.verdict.trans h.verdict

theorem rests (h : p.MetLater t shift q) : q.rests t = p.rests t := by
  rw [Point.rests, Point.rests, h.verdict, Point.residualNorm, Point.residualNorm, h.residual]

theorem square (h : p.MetLater t shift q) {n : Nat} (hp : p.Square n) : q.Square n :=
  ⟨h.place ▸ hp.length_x, h.residual ▸ hp.length_residual, h.jacobian ▸ hp.rows,
    h.jacobian ▸ hp.cols⟩

theorem successor (h : p.MetLater t shift q)
    (value : List Float → Except ε (List Float × DenseMatrix Float)) :
    match p.successor value with
    | .error e => q.successor value = .error (e.later shift)
    | .ok p' => ∃ q', q.successor value = .ok q' ∧ p'.MetLater t shift q' := by
  unfold Point.successor Point.advance
  rw [h.residual, h.jacobian, h.place]
  cases hstep : finiteStep p.jacobian p.residual with
  | error fault =>
    dsimp only
    rw [Failure.later_ofStep, h.index, Nat.add_assoc]
  | ok step =>
    dsimp only
    cases hvalue : value (List.zipWith (· + ·) p.x step.direction) with
    | error e => rfl
    | ok b =>
      simp only [Point.evaluated]
      by_cases hshape : b.2.IsSquare (List.zipWith (· + ·) p.x step.direction).length
      · simp only [if_pos hshape]
        refine ⟨_, rfl, ⟨?_, rfl, rfl, rfl, ?_, ?_⟩⟩
        · simp only [h.index, Nat.add_assoc]
        · simp only [h.evaluations, Nat.add_assoc]
        · simp only [Point.verdict, Nat.add_one_ne_zero, if_false]
      · simp only [if_neg hshape]
        rfl

end Point.MetLater

section Trails

variable {f : System σ ε} {n : Nat} {value : List Float → Except ε (List Float × DenseMatrix Float)}
  {t : Tolerances} {shift : Nat}

theorem trail_metLater (h : f.both.run.Answers n (SquareBuffers n) value) (k : Nat) {p q : Point}
    (hp : p.Square n) (hpq : p.MetLater t shift q) (s s' : σ) :
    (trail f t k s' q).failure = (trail f t k s p).failure.map (Failure.later shift) ∧
      ((trail f t k s p).last p).MetLater t shift ((trail f t k s' q).last q) := by
  -- the states drop out of each step, as the successors are told from the points alone
  induction k generalizing p q s s' with
  | zero => exact ⟨rfl, hpq⟩
  | succ k ih =>
    by_cases hrest : p.rests t = true
    · rw [trail_of_rests f hrest, trail_of_rests f (hpq.rests.trans hrest)]
      exact ⟨rfl, hpq⟩
    · have hmoves : p.rests t = false := eq_false_of_ne_true hrest
      have hmoves' : q.rests t = false := hpq.rests.trans hmoves
      have hsuccessor := hpq.successor value
      rw [← Point.next_fst h hp s, ← Point.next_fst h (hpq.square hp) s'] at hsuccessor
      rcases hnext : p.next f s with ⟨e | p', s₁⟩
      · rw [hnext] at hsuccessor
        have hnext' : q.next f s' = (.error (e.later shift), (q.next f s').2) :=
          Prod.ext hsuccessor rfl
        rw [trail_of_error hmoves hnext, trail_of_error hmoves' hnext']
        exact ⟨rfl, hpq⟩
      · rw [hnext] at hsuccessor
        obtain ⟨q', hq', hpq'⟩ := hsuccessor
        have hnext' : q.next f s' = (.ok q', (q.next f s').2) := Prod.ext hq' rfl
        rw [trail_of_ok hmoves hnext, trail_of_ok hmoves' hnext', Trail.last_after,
          Trail.last_after]
        exact ih ((Point.follows_of_next hnext).square hp) hpq' s₁ _

end Trails

inductive Continued (first : Summary) :
    Except (Failure ε) Summary → Except (Failure ε) Summary → Prop
  | ok {second whole : Summary} (zero : whole.zero = second.zero)
      (residualNorm : whole.residualNorm = second.residualNorm)
      (verdict : whole.verdict = second.verdict)
      (iterations : whole.iterations = first.iterations + second.iterations)
      (residualCalls : whole.residualCalls + 1 = first.residualCalls + second.residualCalls)
      (jacobianCalls : whole.jacobianCalls + 1 = first.jacobianCalls + second.jacobianCalls) :
      Continued first (.ok second) (.ok whole)
  | error (e : Failure ε) : Continued first (.error e) (.error (e.later first.iterations))

structure Restarts (f : System σ ε) (start : List Float) (o : Settings) (r : Summary) : Prop where
  resumed : r.iterations = o.iterations → r.converged = false → r.residualNorm.isFinite = true →
    ∀ (s s' : σ) (o' whole : Settings) (sink sink' : Sink), o'.tolerances = o.tolerances →
      whole.tolerances = o.tolerances → whole.iterations = o.iterations + o'.iterations →
      Continued r (solve f s r.zero o' sink).result (solve f s' start whole sink').result
  settled : r.verdict.smallResidual = true →
    ∀ (s : σ) (o' : Settings) (sink : Sink), o'.tolerances = o.tolerances →
      ∃ r', (solve f s r.zero o' sink).result = .ok r' ∧ r'.iterations = 0 ∧ r'.zero = r.zero ∧
        r'.residualNorm = r.residualNorm ∧ r'.verdict.smallResidual = true

theorem precheck_of_length {f : System σ ε} {o o' : Settings} {start x : List Float}
    (htolerances : o'.tolerances = o.tolerances) (hlength : x.length = start.length) :
    precheck f o' x = precheck f o start := by
  rw [precheck, precheck, Settings.fault?, Settings.fault?, htolerances, hlength]

theorem Point.verdict_of_not_converged {p : Point} {t : Tolerances}
    (h : (p.verdict t).converged = false) : p.verdict t = t.judgeStart p.residual := by
  unfold Point.verdict at h ⊢
  split
  · rfl
  · next hpos =>
    rw [if_neg hpos, Verdict.converged, Bool.or_eq_false_iff] at h
    rw [Tolerances.judge, Tolerances.judgeStart]
    exact congrArg (Verdict.mk · _) h.1

section Restart

variable {f : System σ ε} {start : List Float} {o : Settings} {s s₁ : σ} {p q : Point}
  {value : List Float → Except ε (List Float × DenseMatrix Float)}

theorem start_from_any (h : f.both.run.Answers start.length (SquareBuffers start.length) value)
    (hstart : Point.start f s start = (.ok p, s₁)) (s' : σ) :
    ∃ s₁', Point.start f s' start = (.ok p, s₁') := by
  have hp := Point.starts_of_start hstart
  have hsame (s : σ) := Point.start_fst h (hp.valued h) hp.finite s
  rw [hp.place] at hsame
  have hfirst : (Point.start f s' start).1 = .ok p := by rw [hsame s', ← hsame s, hstart]
  exact ⟨_, Prod.ext hfirst rfl⟩

theorem longer_trail_metLater
    (h : f.both.run.Answers start.length (SquareBuffers start.length) value)
    (hstart : Point.start f s start = (.ok p, s₁)) {t : Tolerances} {m k : Nat}
    (hfailure : (trail f t m s₁ p).failure = none) (hlength : (trail f t m s₁ p).points.length = m)
    (hlast : (trail f t m s₁ p).last p = q) {first : Point} {shift : Nat}
    (hsquare : first.Square start.length) (hfirst : first.MetLater t shift q) (s₂ s₃ : σ) :
    (trail f t (m + k) s₃ p).failure = (trail f t k s₂ first).failure.map (Failure.later shift) ∧
      ((trail f t k s₂ first).last first).MetLater t shift ((trail f t (m + k) s₃ p).last p) := by
  have hp := (Point.starts_of_start hstart).square
  have hlonger := trail_eq_behind (Looser.refl t) (Nat.le_add_right m k) hfailure
  rw [hlength, Nat.add_sub_cancel_left, hlast] at hlonger
  obtain ⟨hfails, hmet⟩ := trail_metLater h k hsquare hfirst s₂ (trail f t m s₁ p).state
  -- the first run is met again from the state `s₃`, no iterations later
  obtain ⟨hfails', hmet'⟩ := trail_metLater h (m + k) hp (.refl t p) s₁ s₃
  rw [Trail.last] at hlast
  rw [hlonger, Trail.last_behind, hlast] at hmet'
  rw [hlonger] at hfails'
  constructor
  · rw [hfails']
    have hsame : (Failure.later 0 : Failure ε → Failure ε) = id := funext Failure.later_zero
    rw [hsame, Option.map_id_fun, ← hfails]
    rfl
  · have htrans := hmet.trans hmet'
    rwa [Nat.zero_add] at htrans

end Restart

theorem metLater_of_not_converged {q : Point} {t : Tolerances}
    (hevaluations : q.evaluations = q.index + 1) (h : (q.verdict t).converged = false) :
    q.asFirst.MetLater t q.index q :=
  ⟨rfl, rfl, rfl, rfl, hevaluations, Point.verdict_of_not_converged h⟩

theorem continued_of_endsAt {o o' whole : Settings} {start x : List Float} {p q q' : Point}
    {first r r' : Summary} (htolerances : o'.tolerances = o.tolerances)
    (htolerances' : whole.tolerances = o.tolerances) (hfirst : EndsAt o start q first)
    (hevaluations : q.evaluations = q.index + 1) (hr : EndsAt o' x p r)
    (hr' : EndsAt whole start q' r') (h : p.MetLater o.tolerances q.index q') :
    Continued (ε := ε) first (.ok r) (.ok r') := by
  have hcalls : q'.evaluations + 1 = q.evaluations + p.evaluations := by
    rw [h.evaluations, hevaluations]
    omega
  refine .ok ?_ ?_ ?_ ?_ ?_ ?_
  · rw [hr'.zero, hr.zero, h.place]
  · rw [hr'.residualNorm, hr.residualNorm, Point.residualNorm, h.residual, Point.residualNorm]
  · rw [hr'.verdict, hr.verdict, htolerances', htolerances, h.verdict]
  · rw [hr'.iterations, hr.iterations, hfirst.iterations, h.index]
  · rw [hr'.residualCalls, hr.residualCalls, hfirst.residualCalls, hcalls]
  · rw [hr'.jacobianCalls, hr.jacobianCalls, hfirst.jacobianCalls, hcalls]

/-- A run from the start went from `p`, in the state `s₁`, to its end at `q`, with this summary. -/
structure Stopped (f : System σ ε) (start : List Float) (o : Settings)
    (value : List Float → Except ε (List Float × DenseMatrix Float)) (p : Point) (s₁ : σ)
    (q : Point) (r : Summary) : Prop where
  check : precheck f o start = none
  started : ∃ s, Point.start f s start = (.ok p, s₁)
  failure : (trail f o.tolerances o.iterations s₁ p).failure = none
  last : (trail f o.tolerances o.iterations s₁ p).last p = q
  length : (trail f o.tolerances o.iterations s₁ p).points.length = q.index
  valued : q.Valued start.length value
  evaluations : q.evaluations = q.index + 1
  ends : EndsAt o start q r

namespace Stopped

variable {f : System σ ε} {s s₁ : σ} {start : List Float} {o : Settings} {p q : Point}
  {value : List Float → Except ε (List Float × DenseMatrix Float)} {r : Summary}

theorem of_solve_ok (h : f.both.run.Answers start.length (SquareBuffers start.length) value)
    {sink : Sink} (hr : (solve f s start o sink).result = .ok r) :
    ∃ p s₁ q, Stopped f start o value p s₁ q r := by
  obtain ⟨p, s₁, hstart, hfailure, -, hends, -⟩ := trail_of_solve_ok hr
  have hp := Point.starts_of_start hstart
  have hlast := ((trail_ends o (Located.of_start hstart) (by rw [hp.index, Nat.zero_add])
    (by rw [hp.index]; exact fun j hj => absurd hj (Nat.not_lt_zero j))).1 hfailure).1
  exact ⟨p, s₁, _, precheck_of_solve_ok hr, ⟨s, hstart⟩, hfailure, rfl,
    (length_of_isChain (isChain_trail f _ _ _ _) hp.index).symm,
    valued_last h _ _ _ (hp.valued h), hlast.evaluations, hends⟩

variable (h : Stopped f start o value p s₁ q r)
include h

theorem checked {o' : Settings} (htolerances : o'.tolerances = o.tolerances) :
    precheck f o' q.x = none :=
  (precheck_of_length htolerances h.valued.square.length_x).trans h.check

theorem start_again (hvalue : f.both.run.Answers start.length (SquareBuffers start.length) value)
    (hfinite : r.residualNorm.isFinite = true) (s : σ) :
    ∃ s', Point.start f s q.x = (.ok q.asFirst, s') := by
  have hresiduals := all_isFinite_of_infNorm (h.ends.residualNorm ▸ hfinite)
  exact ⟨_, Prod.ext (Point.start_fst hvalue h.valued hresiduals s) rfl⟩

theorem resumed (hvalue : f.both.run.Answers start.length (SquareBuffers start.length) value)
    (hlimit : r.iterations = o.iterations) (hconverged : r.converged = false)
    (hfinite : r.residualNorm.isFinite = true) (s₂ s₃ : σ) {o' whole : Settings}
    (sink₂ sink₃ : Sink) (htolerances : o'.tolerances = o.tolerances)
    (htolerances' : whole.tolerances = o.tolerances)
    (htotal : whole.iterations = o.iterations + o'.iterations) :
    Continued r (solve f s₂ q.x o' sink₂).result (solve f s₃ start whole sink₃).result := by
  obtain ⟨s, hstart⟩ := h.started
  have hindex : q.index = o.iterations := h.ends.iterations.symm.trans hlimit
  have hnot : (q.verdict o.tolerances).converged = false := h.ends.verdict ▸ hconverged
  have hcheck₂ := h.checked htolerances
  have hcheck₃ := (precheck_of_length htolerances' rfl).trans h.check
  obtain ⟨s₂', hstart₂⟩ := h.start_again hvalue hfinite s₂
  obtain ⟨s₃', hstart₃⟩ := start_from_any hvalue hstart s₃
  have hmet := metLater_of_not_converged h.evaluations hnot
  obtain ⟨hfails, hlast⟩ := longer_trail_metLater (k := o'.iterations) hvalue hstart h.failure
    (h.length.trans hindex) h.last (Point.square_asFirst h.valued.square) hmet s₂' s₃'
  have htrail₂ : trail f o.tolerances o'.iterations s₂' q.asFirst =
      trail f o'.tolerances o'.iterations s₂' q.asFirst := by rw [htolerances]
  have htrail₃ : trail f o.tolerances (o.iterations + o'.iterations) s₃' p =
      trail f whole.tolerances whole.iterations s₃' p := by rw [htolerances', htotal]
  rw [htrail₂, htrail₃] at hfails hlast
  cases hsecond : (trail f o'.tolerances o'.iterations s₂' q.asFirst).failure with
  | some e =>
    rw [hsecond] at hfails
    rw [solve_error_of_trail sink₂ hcheck₂ hstart₂ hsecond,
      solve_error_of_trail sink₃ hcheck₃ hstart₃ hfails, ← h.ends.iterations]
    exact .error e
  | none =>
    rw [hsecond] at hfails
    obtain ⟨r₂, hr₂, hends₂, -⟩ := endsAt_of_trail sink₂ hcheck₂ hstart₂ hsecond
    obtain ⟨r₃, hr₃, hends₃, -⟩ := endsAt_of_trail sink₃ hcheck₃ hstart₃ hfails
    rw [hr₂, hr₃]
    exact continued_of_endsAt htolerances htolerances' h.ends h.evaluations hends₂ hends₃ hlast

theorem settled (hvalue : f.both.run.Answers start.length (SquareBuffers start.length) value)
    (hsmall : r.verdict.smallResidual = true) (s₂ : σ) {o' : Settings} (sink₂ : Sink)
    (htolerances : o'.tolerances = o.tolerances) :
    ∃ r', (solve f s₂ q.x o' sink₂).result = .ok r' ∧ EndsAt o' q.x q.asFirst r' ∧
      r'.verdict.smallResidual = true := by
  rw [h.ends.verdict, Point.smallResidual_verdict] at hsmall
  have hbelow : infNorm q.residual < o.tolerances.residual := of_decide_eq_true hsmall
  have hfinite : r.residualNorm.isFinite = true :=
    h.ends.residualNorm ▸ isFinite_infNorm_of_lt hbelow
  obtain ⟨s₂', hstart₂⟩ := h.start_again hvalue hfinite s₂
  have hsettled : (q.asFirst.verdict o'.tolerances).smallResidual = true := by
    rw [Point.smallResidual_verdict, htolerances]
    exact hsmall
  have hrest : q.asFirst.rests o'.tolerances = true := by
    rw [Point.rests, Verdict.converged, hsettled, Bool.or_true, Bool.true_or]
  have htrail := trail_of_rests f hrest o'.iterations s₂'
  obtain ⟨r', hr', hends', -⟩ := endsAt_of_trail sink₂ (h.checked htolerances) hstart₂
    (congrArg Trail.failure htrail)
  rw [htrail] at hends'
  exact ⟨r', hr', hends', hends'.verdict ▸ hsettled⟩

end Stopped

theorem solve_restarts {f : System σ ε} {s : σ} {start : List Float} {o : Settings} {sink : Sink}
    {r : Summary} (hf : f.Overwrites start.length)
    (hr : (solve f s start o sink).result = .ok r) : Restarts f start o r := by
  obtain ⟨value, hvalue⟩ := hf.both
  obtain ⟨p, s₁, q, hstopped⟩ := Stopped.of_solve_ok hvalue hr
  constructor
  · intro hlimit hconverged hfinite s₂ s₃ o' whole sink₂ sink₃ htolerances htolerances' htotal
    rw [hstopped.ends.zero]
    exact hstopped.resumed hvalue hlimit hconverged hfinite s₂ s₃ sink₂ sink₃ htolerances
      htolerances' htotal
  · intro hsmall s₂ o' sink₂ htolerances
    obtain ⟨r', hr', hends', hsettled⟩ :=
      hstopped.settled hvalue hsmall s₂ sink₂ htolerances
    rw [hstopped.ends.zero, hstopped.ends.residualNorm]
    exact ⟨r', hr', hends'.iterations, hends'.zero, hends'.residualNorm, hsettled⟩

open Script in
def rootOfTwo : System (Unit × Scratch) String :=
  CentralDifference.system (Script.residual
    [.setResidual 0 (.binary .sub (.power (.point 0) 2) (.constant 2))] 0) (some 1)

theorem rootOfTwo_overwrites : rootOfTwo.Overwrites 1 := by
  refine .centralDifference ⟨fun x => .ok [x.getD 0 0 * x.getD 0 0 - 2], ?_⟩
  rintro ⟨⟩ x fx - hfx
  obtain ⟨a, rfl⟩ := List.length_eq_one_iff.1 hfx
  exact ⟨rfl, rfl⟩

def twoSteps : Settings := { iterations := 2 }

theorem solve_rootOfTwo_restarts :
    rootOfTwo.Overwrites ([1] : List Float).length ∧
    ∃ r, (solve rootOfTwo ((), .empty) [1] twoSteps .unlimited).result = .ok r ∧
      r.iterations = twoSteps.iterations ∧ r.converged = false ∧ r.residualNorm.isFinite = true ∧
      Restarts rootOfTwo [1] twoSteps r := by
  obtain ⟨r, hr, htest⟩ := Outcome.ok_of_any
    (solve rootOfTwo ((), .empty) [1] twoSteps .unlimited)
    (fun r => decide (r.iterations = twoSteps.iterations) &&
      (!r.converged && r.residualNorm.isFinite)) (by decide +kernel)
  simp only [Bool.and_eq_true, decide_eq_true_eq, Bool.not_eq_true'] at htest
  obtain ⟨hiterations, hconverged, hfinite⟩ := htest
  exact ⟨rootOfTwo_overwrites, r, hr, hiterations, hconverged, hfinite,
    solve_restarts rootOfTwo_overwrites hr⟩

end RootFinding.Newton
