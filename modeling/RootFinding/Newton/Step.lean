import RootFinding.DenseMatrix
import RootFinding.Linear.Equation
import RootFinding.Norm

/-!
# The Newton step

The step from an iterate solves the linear system of its Jacobian for its negative residual,
one equation to a row. Over binary64 numbers a solution that is not finite in every component
is refused as well as a singular system.
-/

namespace RootFinding.Newton

section Exact

variable {α : Type} [Add α] [Mul α] [Neg α] [Div α] [OfNat α 0] [OfNat α 1] [Linear.Magnitude α]

def equations (jacobian : List (List α)) (residual : List α) : List (Linear.Equation α) :=
  List.zipWith (fun row value => ⟨row, -value⟩) jacobian residual

/-- The solution of `J d = -f`, for a Jacobian given by its rows; `none` is singular. -/
def direction? (jacobian : List (List α)) (residual : List α) : Option (List α) :=
  Linear.solve (equations jacobian residual)

end Exact

inductive StepFault where
  | singular
  | nonFinite
  deriving DecidableEq, Repr

structure Step where
  direction : List Float
  length : Float

def finiteStep (jacobian : DenseMatrix Float) (residual : List Float) : Except StepFault Step :=
  match direction? jacobian.toRows residual with
  | none => .error .singular
  | some direction =>
    if direction.all Float.isFinite then .ok ⟨direction, stepLength direction⟩
    else .error .nonFinite

end RootFinding.Newton
