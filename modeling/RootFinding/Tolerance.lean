import RootFinding.Norm

/-!
# Stopping tests

An iterate is tested on two counts: the distance from the iterate before it, and the maximum
norm of its residual. Both comparisons are strict, so a tolerance of zero switches its test off,
and a NaN passes neither.
-/

namespace RootFinding

structure Tolerances where
  step : Float
  residual : Float

structure Verdict where
  smallStep : Bool
  smallResidual : Bool
  deriving DecidableEq, Repr

def Verdict.converged (v : Verdict) : Bool := v.smallStep || v.smallResidual

def Tolerances.acceptsStep (t : Tolerances) (x previous : List Float) : Bool :=
  infDistance x previous < t.step

def Tolerances.acceptsResidual (t : Tolerances) (residual : List Float) : Bool :=
  infNorm residual < t.residual

def Tolerances.judge (t : Tolerances) (x previous residual : List Float) : Verdict :=
  ⟨t.acceptsStep x previous, t.acceptsResidual residual⟩

/-- Before the first step only the residual can be small. -/
def Tolerances.judgeStart (t : Tolerances) (residual : List Float) : Verdict :=
  ⟨false, t.acceptsResidual residual⟩

end RootFinding
