import RootFinding.Report.History

/-!
# The summary of a finished solve

A summary holds where the solve started and ended, what it was asked for, how its last iterate
was judged, the stored history and the number of evaluations. Its text has one line to an item:
vectors are written with their entries, the residual norm with six places, the tolerances with
one digit after the point and an exponent.
-/

namespace RootFinding

structure Summary where
  method : String
  start : List Float
  zero : List Float
  residualNorm : Float
  iterations : Nat
  verdict : Verdict
  tolerances : Tolerances
  history : History
  residualCalls : Nat
  jacobianCalls : Nat

namespace Summary

def converged (s : Summary) : Bool := s.verdict.converged

def flagText (b : Bool) : String := if b then "true" else "false"

def lines (s : Summary) : List String :=
  [ "Results of Nonlinear Solver Algorithm",
    " * Algorithm: " ++ s.method,
    " * Starting Point: " ++ String.ofList (vectorText s.start),
    " * Zero: " ++ String.ofList (vectorText s.zero),
    " * Inf-norm of residuals: " ++ String.ofList (Decimal.fixed 6 s.residualNorm),
    " * Iterations: " ++ String.ofList (Decimal.natural s.iterations),
    " * Convergence: " ++ flagText s.converged,
    "   * |x - x'| < " ++ String.ofList (Decimal.scientific 1 s.tolerances.step) ++ ": " ++
      flagText s.verdict.smallStep,
    "   * |f(x)| < " ++ String.ofList (Decimal.scientific 1 s.tolerances.residual) ++ ": " ++
      flagText s.verdict.smallResidual,
    " * Function Calls (f): " ++ String.ofList (Decimal.natural s.residualCalls),
    " * Jacobian Calls (df/dx): " ++ String.ofList (Decimal.natural s.jacobianCalls) ]

def render (s : Summary) : String := "\n".intercalate s.lines

end Summary

end RootFinding
