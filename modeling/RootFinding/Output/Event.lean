import RootFinding.Output.Sink
import RootFinding.Tolerance

/-!
# Events of a solve

A solve reports its start, its successful end, and everything that stops it or gets lost on the
way. An event is data; its level, its text and its named fields are read off it here.
-/

namespace RootFinding

inductive Level where
  | debug
  | warn
  deriving DecidableEq, Repr

def Level.name : Level → String
  | .debug => "DEBUG"
  | .warn => "WARN"

inductive Event where
  | started (unknowns : Nat) (tolerances : Tolerances) (iterations : Nat)
  | finished (iterations : Nat) (converged : Bool) (residualNorm : Float)
  | singularJacobian (iteration : Nat)
  | nonFiniteStep (iteration : Nat)
  | residualNaN (iteration : Nat)
  | headerLost (cause : WriteFault)
  | snapshotLost (cause : WriteFault) (iteration : Nat)

inductive Event.Field where
  | whole (n : Nat)
  | flag (b : Bool)
  | number (x : Float)
  | text (s : String)

namespace Event

def level : Event → Level
  | started .. | finished .. => .debug
  | _ => .warn

def message : Event → String
  | started .. => "starting newton solve"
  | finished .. => "newton solve finished"
  | singularJacobian _ => "singular jacobian"
  | nonFiniteStep _ => "non-finite newton step"
  | residualNaN _ => "residual is NaN; stopping"
  | headerLost _ => "failed to show trace header"
  | snapshotLost .. => "failed to show solver state"

def fields : Event → List (String × Field)
  | started unknowns tolerances iterations =>
    [("n", .whole unknowns), ("xtol", .number tolerances.step),
      ("ftol", .number tolerances.residual), ("iterations", .whole iterations)]
  | finished iterations converged residualNorm =>
    [("iterations", .whole iterations), ("converged", .flag converged),
      ("residual_norm", .number residualNorm)]
  | singularJacobian iteration | nonFiniteStep iteration | residualNaN iteration =>
    [("iteration", .whole iteration)]
  | headerLost cause => [("error", .text cause.message)]
  | snapshotLost cause iteration =>
    [("error", .text cause.message), ("iteration", .whole iteration)]

end Event

end RootFinding
