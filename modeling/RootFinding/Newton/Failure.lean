import RootFinding.Newton.Settings
import RootFinding.Newton.Step
import RootFinding.Output.Event

/-!
# Failures of a solve

Running out of iterations is no failure. An error of an evaluator is carried along unchanged;
the two failures of the linear solve are also reported as warnings.
-/

namespace RootFinding.Newton

inductive Failure (ε : Type) where
  | settings (fault : SettingsFault)
  | dimensionMismatch (expected found : Nat)
  | jacobianShape (expected rows cols : Nat)
  | nonFiniteResidual
  | singularJacobian (iteration : Nat)
  | nonFiniteStep (iteration : Nat)
  | evaluation (error : ε)
  deriving DecidableEq, Repr

namespace Failure

variable {ε : Type}

def ofStep : StepFault → Nat → Failure ε
  | .singular, iteration => singularJacobian iteration
  | .nonFinite, iteration => nonFiniteStep iteration

def message : Failure ε → String
  | settings fault => "invalid config: " ++ fault.message
  | dimensionMismatch expected found =>
    s!"starting point has {expected} components but the function has {found} residuals"
  | jacobianShape expected rows cols =>
    s!"jacobian must be {expected}x{expected}, found {rows}x{cols}"
  | nonFiniteResidual => "non-finite residual at the starting point"
  | singularJacobian iteration => s!"singular jacobian at iteration {iteration}"
  | nonFiniteStep iteration => s!"non-finite newton step at iteration {iteration}"
  | evaluation _ => "function evaluation failed"

def evaluation? : Failure ε → Option ε
  | evaluation error => some error
  | _ => none

def warning? : Failure ε → Option Event
  | singularJacobian iteration => some (.singularJacobian iteration)
  | nonFiniteStep iteration => some (.nonFiniteStep iteration)
  | _ => none

end Failure

end RootFinding.Newton
