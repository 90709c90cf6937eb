import RootFinding.Proofs.Evaluator.CentralDifference

/-!
# Systems that overwrite their buffers

A system may be put together of separate evaluators, of a joint one, or of a residual evaluator and
central differences. If the evaluators that it is made of overwrite their buffers, so does the
evaluation of residual and Jacobian together, which is all that a solve asks for.
-/

namespace RootFinding

variable {ε : Type}

inductive System.Overwrites (n : Nat) : {σ : Type} → System σ ε → Prop
  | sequential {σ : Type} {residual : ResidualEvaluator σ ε} {jacobian : JacobianEvaluator σ ε}
      {dimension : Option Nat} (hresidual : residual.run.Overwrites n (·.length = n))
      (hjacobian : Evaluator.Overwrites jacobian n (DenseMatrix.IsSquare n)) :
      Overwrites n (.sequential residual jacobian dimension)
  | fused {σ : Type} {residual : ResidualEvaluator σ ε} {jacobian : JacobianEvaluator σ ε}
      {both : JointEvaluator σ ε} {dimension : Option Nat}
      (hboth : both.run.Overwrites n (SquareBuffers n)) :
      Overwrites n (.fused residual jacobian both dimension)
  | centralDifference {σ : Type} {residual : ResidualEvaluator σ ε} {dimension : Option Nat}
      (hresidual : residual.run.Overwrites n (·.length = n)) :
      Overwrites n (CentralDifference.system residual dimension)

theorem CentralDifference.overwrites_andThen {σ : Type} {residual : ResidualEvaluator σ ε} {n : Nat}
    (h : residual.run.Overwrites n (·.length = n)) :
    ((besideScratch residual).andThen (jacobian residual)).run.Overwrites n (SquareBuffers n) := by
  obtain ⟨value, hvalue⟩ := h
  exact ResidualEvaluator.overwrites_andThen ⟨value, fun s => hvalue s.1⟩
    ⟨jacobianOf value, jacobian_answers hvalue⟩

theorem System.Overwrites.both {σ : Type} {f : System σ ε} {n : Nat} (h : f.Overwrites n) :
    f.both.run.Overwrites n (SquareBuffers n) := by
  cases h with
  | sequential hresidual hjacobian =>
    exact ResidualEvaluator.overwrites_andThen hresidual hjacobian
  | fused hboth => exact hboth
  | centralDifference hresidual => exact CentralDifference.overwrites_andThen hresidual

end RootFinding
