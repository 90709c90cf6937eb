import RootFinding.Newton.Failure
import RootFinding.Evaluator.System
import RootFinding.Newton.Step
import RootFinding.Report.Snapshot

/-!
# The points of a Newton iteration

A point is an iterate with everything known at it: its number, the iterate before it, residual
and Jacobian, and the step that led there. The next point adds the Newton step to the iterate
and evaluates both buffers there, which start from what they hold. A Jacobian that does not
have one row and one column to a component is a failure of the evaluation. Before the first
step the buffers hold zeros, and the length of the step is not a number.
-/

namespace RootFinding.Newton

variable {σ ε : Type}

structure Point where
  index : Nat
  x : List Float
  previous : List Float
  residual : List Float
  jacobian : DenseMatrix Float
  step : Step
  /-- evaluations started up to here -/
  evaluations : Nat

namespace Point

def residualNorm (p : Point) : Float := infNorm p.residual

def blank (x : List Float) : Point where
  index := 0
  x := x
  previous := x
  residual := List.replicate x.length 0
  jacobian := .filled x.length x.length 0
  step := ⟨List.replicate x.length 0, notANumber⟩
  evaluations := 0

def evaluate (p : Point) (f : System σ ε) (s : σ) : Except (Failure ε) Point × σ :=
  let reply := f.both.run s p.x (p.residual, p.jacobian)
  let n := p.x.length
  match reply.failure with
  | some error => (.error (.evaluation error), reply.state)
  | none =>
    let jacobian := reply.buffer.2
    if jacobian.rows = n ∧ jacobian.cols = n then
      (.ok { p with
        residual := reply.buffer.1
        jacobian := jacobian
        evaluations := p.evaluations + 1 }, reply.state)
    else (.error (.jacobianShape n jacobian.rows jacobian.cols), reply.state)

def advance (p : Point) : Except (Failure ε) Point :=
  match finiteStep p.jacobian p.residual with
  | .error fault => .error (.ofStep fault (p.index + 1))
  | .ok step =>
    .ok { p with
      index := p.index + 1
      x := List.zipWith (· + ·) p.x step.direction
      previous := p.x
      step := step }

def start (f : System σ ε) (s : σ) (x : List Float) : Except (Failure ε) Point × σ :=
  match (blank x).evaluate f s with
  | (.error e, s) => (.error e, s)
  | (.ok p, s) =>
    if p.residual.all Float.isFinite then (.ok p, s) else (.error .nonFiniteResidual, s)

def next (p : Point) (f : System σ ε) (s : σ) : Except (Failure ε) Point × σ :=
  match (p.advance : Except (Failure ε) Point) with
  | .error e => (.error e, s)
  | .ok p => p.evaluate f s

def diagnostics (p : Point) : Diagnostics :=
  let here := Diagnostics.ofList
    [("x", .vector p.x), ("f(x)", .vector p.residual), ("J(x)", .matrix p.jacobian)]
  if p.index = 0 then here else here.insert "step" (.vector p.step.direction)

def snapshot (p : Point) (extended : Bool) : Snapshot where
  iteration := p.index
  residualNorm := p.residualNorm
  stepNorm := p.step.length
  diagnostics := if extended then p.diagnostics else .empty

end Point

end RootFinding.Newton
