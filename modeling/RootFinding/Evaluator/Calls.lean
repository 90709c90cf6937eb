import RootFinding.Evaluator.System

/-!
# The record of calls

Three evaluators make a system: of the residual, of the Jacobian and of both. A recorded
evaluator does what it did before and notes each of its calls, with the point, as the call
starts, so a call that fails is noted too. It may depend on how many calls of its own came
before.
-/

namespace RootFinding

inductive Slot where
  | residual | jacobian | both
  deriving DecidableEq, Repr

structure Calls where
  residual : Nat
  jacobian : Nat
  both : Nat
  /-- the points of all calls, in order -/
  points : Array (Slot × List Float)

namespace Calls

def none : Calls := ⟨0, 0, 0, #[]⟩

def count (c : Calls) : Slot → Nat
  | .residual => c.residual
  | .jacobian => c.jacobian
  | .both => c.both

def enter (c : Calls) (slot : Slot) (x : List Float) : Calls :=
  let points := c.points.push (slot, x)
  match slot with
  | .residual => { c with residual := c.residual + 1, points := points }
  | .jacobian => { c with jacobian := c.jacobian + 1, points := points }
  | .both => { c with both := c.both + 1, points := points }

theorem count_enter (c : Calls) (slot other : Slot) (x : List Float) :
    (c.enter slot x).count other = c.count other + if other = slot then 1 else 0 := by
  cases slot <;> cases other <;> rfl

end Calls

variable {σ ε β : Type}

def Evaluator.recorded (slot : Slot) (run : Nat → Evaluator σ ε β) :
    Evaluator (σ × Calls) ε β :=
  fun (s, calls) x buffer =>
    let reply := run (calls.count slot) s x buffer
    ⟨reply.failure, reply.buffer, (reply.state, calls.enter slot x)⟩

def ResidualEvaluator.recorded (residual : Nat → ResidualEvaluator σ ε) :
    ResidualEvaluator (σ × Calls) ε where
  run := Evaluator.recorded .residual fun calls => (residual calls).run
  length_run := fun (s, calls) x fx => (residual (calls.count .residual)).length_run s x fx

def JacobianEvaluator.recorded (jacobian : Nat → JacobianEvaluator σ ε) :
    JacobianEvaluator (σ × Calls) ε :=
  Evaluator.recorded .jacobian jacobian

def JointEvaluator.recorded (both : Nat → JointEvaluator σ ε) :
    JointEvaluator (σ × Calls) ε where
  run := Evaluator.recorded .both fun calls => (both calls).run
  length_run := fun (s, calls) x fx jx => (both (calls.count .both)).length_run s x fx jx

end RootFinding
