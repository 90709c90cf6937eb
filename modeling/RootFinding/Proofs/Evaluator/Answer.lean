import RootFinding.Evaluator.System

/-!
# Answers that depend on the point

An evaluator answers by a value if, from every state and on every buffer of some kind, a call fails
or fills its buffer as the value at its point says. Two evaluators that answer by values answer by
both values in a sequence.
-/

namespace RootFinding

variable {σ ε β : Type}

def Reply.Gives (r : Reply σ ε β) : Except ε β → Prop
  | .error e => r.failure = some e
  | .ok b => r.failure = none ∧ r.buffer = b

/-- The answer at a point of `n` components is the value there, for all states and all buffers of
the kind. -/
def Evaluator.Answers (run : Evaluator σ ε β) (n : Nat) (kind : β → Prop)
    (value : List Float → Except ε β) : Prop :=
  ∀ s x b, x.length = n → kind b → (run s x b).Gives (value x)

def Evaluator.Overwrites (run : Evaluator σ ε β) (n : Nat) (kind : β → Prop) : Prop :=
  ∃ value, run.Answers n kind value

def DenseMatrix.IsSquare {α : Type} (n : Nat) (m : DenseMatrix α) : Prop := m.rows = n ∧ m.cols = n

instance {α : Type} (n : Nat) (m : DenseMatrix α) : Decidable (m.IsSquare n) :=
  inferInstanceAs (Decidable (_ ∧ _))

def SquareBuffers (n : Nat) (b : List Float × DenseMatrix Float) : Prop :=
  b.1.length = n ∧ b.2.IsSquare n

namespace ResidualEvaluator

variable (residual : ResidualEvaluator σ ε) (jacobian : JacobianEvaluator σ ε)

theorem andThen_of_error {s : σ} {x fx : List Float} {e : ε}
    (h : (residual.run s x fx).failure = some e) (jx : DenseMatrix Float) :
    (residual.andThen jacobian).run s x (fx, jx) =
      ⟨some e, ((residual.run s x fx).buffer, jx), (residual.run s x fx).state⟩ := by
  unfold andThen
  dsimp only
  rw [h]

theorem andThen_of_ok {s : σ} {x fx : List Float} (h : (residual.run s x fx).failure = none)
    (jx : DenseMatrix Float) :
    (residual.andThen jacobian).run s x (fx, jx) =
      ⟨(jacobian (residual.run s x fx).state x jx).failure,
        ((residual.run s x fx).buffer, (jacobian (residual.run s x fx).state x jx).buffer),
        (jacobian (residual.run s x fx).state x jx).state⟩ := by
  unfold andThen
  dsimp only
  rw [h]

variable {residual jacobian}

theorem overwrites_andThen {n : Nat} (hresidual : residual.run.Overwrites n (·.length = n))
    (hjacobian : Evaluator.Overwrites jacobian n (DenseMatrix.IsSquare n)) :
    (residual.andThen jacobian).run.Overwrites n (SquareBuffers n) := by
  obtain ⟨value, hvalue⟩ := hresidual
  obtain ⟨slope, hslope⟩ := hjacobian
  refine ⟨fun x => do return (← value x, ← slope x), ?_⟩
  rintro s x ⟨fx, jx⟩ hx ⟨hfx, hjx⟩
  have hfirst := hvalue s x fx hx hfx
  change Reply.Gives _ (do return (← value x, ← slope x))
  cases hv : value x with
  | error e =>
    rw [hv] at hfirst
    rw [andThen_of_error residual jacobian hfirst]
    rfl
  | ok v =>
    rw [hv] at hfirst
    have hsecond := hslope (residual.run s x fx).state x jx hx hjx
    rw [andThen_of_ok residual jacobian hfirst.1]
    cases hm : slope x with
    | error e =>
      rw [hm] at hsecond
      exact hsecond
    | ok m =>
      rw [hm] at hsecond
      exact ⟨hsecond.1, Prod.ext hfirst.2 hsecond.2⟩

end ResidualEvaluator

end RootFinding
