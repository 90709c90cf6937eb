import RootFinding.DenseMatrix

/-!
# Systems of equations and their evaluators

A system is given by evaluators of its residual, of its Jacobian and of both together. An
evaluator is handed a state of its own, a point and a buffer. It answers with what the buffer
holds afterwards, with its new state, and with an error if it failed; what it had written by
then stays written. A residual evaluator keeps the length of its buffer, while a Jacobian
evaluator may even change the shape of its matrix.

Where the two are only given apart, both together are the residual and, unless that failed, the
Jacobian. A reference to a system hands every evaluation on to it.
-/

namespace RootFinding

structure Reply (σ ε β : Type) where
  failure : Option ε
  buffer : β
  state : σ

abbrev Evaluator (σ ε β : Type) : Type := σ → List Float → β → Reply σ ε β

structure ResidualEvaluator (σ ε : Type) where
  run : Evaluator σ ε (List Float)
  length_run : ∀ s x fx, (run s x fx).buffer.length = fx.length

abbrev JacobianEvaluator (σ ε : Type) : Type := Evaluator σ ε (DenseMatrix Float)

structure JointEvaluator (σ ε : Type) where
  run : Evaluator σ ε (List Float × DenseMatrix Float)
  length_run : ∀ s x fx jx, (run s x (fx, jx)).buffer.1.length = fx.length

structure System (σ ε : Type) where
  residual : ResidualEvaluator σ ε
  jacobian : JacobianEvaluator σ ε
  both : JointEvaluator σ ε
  /-- the number of equations, if it is declared -/
  dimension : Option Nat

variable {σ ε : Type}

/-- The residual and then the Jacobian, which is left alone if the residual failed. -/
def ResidualEvaluator.andThen (residual : ResidualEvaluator σ ε)
    (jacobian : JacobianEvaluator σ ε) : JointEvaluator σ ε where
  run s x buffers :=
    let first := residual.run s x buffers.1
    match first.failure with
    | some e => ⟨some e, (first.buffer, buffers.2), first.state⟩
    | none =>
      let second := jacobian first.state x buffers.2
      ⟨second.failure, (first.buffer, second.buffer), second.state⟩
  length_run s x fx jx := by
    dsimp only
    split <;> exact residual.length_run s x fx

namespace System

def plain (residual : ResidualEvaluator σ ε) (jacobian : JacobianEvaluator σ ε) : System σ ε :=
  ⟨residual, jacobian, residual.andThen jacobian, none⟩

def sequential (residual : ResidualEvaluator σ ε) (jacobian : JacobianEvaluator σ ε)
    (dimension : Option Nat) : System σ ε :=
  ⟨residual, jacobian, residual.andThen jacobian, dimension⟩

def fused (residual : ResidualEvaluator σ ε) (jacobian : JacobianEvaluator σ ε)
    (both : JointEvaluator σ ε) (dimension : Option Nat) : System σ ε :=
  ⟨residual, jacobian, both, dimension⟩

def byReference (f : System σ ε) : System σ ε where
  residual := ⟨fun s x fx => f.residual.run s x fx, f.residual.length_run⟩
  jacobian := fun s x jx => f.jacobian s x jx
  both := ⟨fun s x buffers => f.both.run s x buffers, f.both.length_run⟩
  dimension := f.dimension

end System

end RootFinding
