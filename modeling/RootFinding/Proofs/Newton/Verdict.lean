import RootFinding.Evaluator.Calls
import RootFinding.Evaluator.Script
import RootFinding.Proofs.Newton.Recurrence

/-!
# The verdict on a residual that is NaN

A NaN residual ends the iteration, and never passes the residual test. The step test is not asked
about the residual: such an ending counts as converged exactly when the last step was below the
step tolerance, so never without a positive one.
-/

namespace RootFinding.Newton

variable {σ ε : Type}

theorem acceptsResidual_of_isNaN (t : Tolerances) {residual : List Float}
    (h : (infNorm residual).isNaN = true) : t.acceptsResidual residual = false := by
  rw [Tolerances.acceptsResidual, decide_eq_false_iff_not]
  exact Binary64.not_lt_of_isNaN h t.residual

theorem Located.index_pos_of_isNaN {f : System σ ε} {s s' : σ} {start : List Float} {p : Point}
    (h : Located f s start p s') (hnan : p.residualNorm.isNaN = true) : p.index ≠ 0 := by
  intro hzero
  rw [h.start_not_isNaN hzero] at hnan
  cases hnan

theorem converged_iff_of_isNaN_residualNorm {f : System σ ε} {s : σ} {start : List Float}
    {o : Settings} {sink : Sink} {r : Summary}
    (h : (solve f s start o sink).result = .ok r) (hnan : r.residualNorm.isNaN = true) :
    ∃ k v w, r.iterations = k + 1 ∧ orbit f s start k = .ok v ∧
      orbit f s start (k + 1) = .ok w ∧ r.zero = w.x ∧ r.residualNorm = infNorm w.residual ∧
      r.verdict.smallResidual = false ∧
      (r.converged = true ↔ infDistance w.x v.x < o.tolerances.step) ∧
      (r.converged = true → 0 < o.tolerances.step) := by
  obtain ⟨p, hp, -, hends⟩ := located_of_solve_ok h
  rw [hends.residualNorm] at hnan
  obtain ⟨k, hk⟩ := Nat.exists_eq_succ_of_ne_zero (hp.index_pos_of_isNaN hnan)
  obtain ⟨v, hv, hprevious⟩ := hp.previous k hk
  have hw := hp.visit
  rw [hk] at hw
  have hverdict : r.verdict = o.tolerances.judge p.x v.x p.residual := by
    rw [hends.verdict, hprevious]
    exact if_neg (hp.index_pos_of_isNaN hnan)
  have hresidual : r.verdict.smallResidual = false := by
    rw [hverdict]
    exact acceptsResidual_of_isNaN o.tolerances hnan
  have hconverged : r.converged = true ↔ infDistance p.x v.x < o.tolerances.step := by
    rw [Summary.converged, Verdict.converged, hresidual, Bool.or_false, hverdict]
    exact decide_eq_true_iff
  exact ⟨k, v, _, hends.iterations.trans hk, hv, hw, hends.zero, hends.residualNorm, hresidual,
    hconverged, fun hc => pos_of_infNorm_lt (hconverged.1 hc)⟩

def squareRoot : System (Unit × Calls) String :=
  .sequential
    (.recorded (Script.residual [.setResidual 0 (.unary .sqrt (.point 0))]))
    (.recorded (Script.jacobian [.setJacobian 0 0
      (.binary .div (.constant 1) (.binary .mul (.constant 2) (.unary .sqrt (.point 0))))]))
    none

/-- From 1/4 the step to the zero of the square root goes to -1/4, where the root is NaN. -/
theorem converged_of_isNaN_residualNorm :
    ∃ r, (solve squareRoot ((), .none) [0.25] { tolerances := ⟨1, 1e-8⟩ } .unlimited).result
        = .ok r ∧ r.residualNorm.isNaN = true ∧ r.verdict.smallStep = true ∧
      r.converged = true := by
  obtain ⟨r, hr, htest⟩ := Outcome.ok_of_any
    (solve squareRoot ((), .none) [0.25] { tolerances := ⟨1, 1e-8⟩ } .unlimited)
    (fun r => r.residualNorm.isNaN && (r.verdict.smallStep && r.converged)) (by decide +kernel)
  simp only [Bool.and_eq_true] at htest
  exact ⟨r, hr, htest⟩

theorem not_converged_of_isNaN_residualNorm :
    ∃ r, (solve squareRoot ((), .none) [0.25] {} .unlimited).result = .ok r ∧
      r.residualNorm.isNaN = true ∧ r.converged = false := by
  obtain ⟨r, hr, hnan⟩ := Outcome.ok_of_any (solve squareRoot ((), .none) [0.25] {} .unlimited)
    (fun r => r.residualNorm.isNaN) (by decide +kernel)
  obtain ⟨-, -, -, -, -, -, -, -, -, -, hpos⟩ := converged_iff_of_isNaN_residualNorm hr hnan
  refine ⟨r, hr, hnan, ?_⟩
  by_contra hc
  exact absurd (hpos (by simpa using hc)) (by decide +kernel)

end RootFinding.Newton
