import RootFinding.Evaluator.System

/-!
# Observed systems

An observed system does what it did before and keeps a record of its evaluations, whichever of
its evaluators made them: the state, the point and the buffers each started from, and its whole
reply.
-/

namespace RootFinding

variable {σ ε : Type}

inductive Evaluation (σ ε : Type) where
  | residual (s : σ) (x fx : List Float) (reply : Reply σ ε (List Float))
  | jacobian (s : σ) (x : List Float) (jx : DenseMatrix Float)
    (reply : Reply σ ε (DenseMatrix Float))
  | both (s : σ) (x : List Float) (buffers : List Float × DenseMatrix Float)
    (reply : Reply σ ε (List Float × DenseMatrix Float))

def Evaluator.observed {β : Type} (note : σ → List Float → β → Reply σ ε β → Evaluation σ ε)
    (run : Evaluator σ ε β) : Evaluator (σ × List (Evaluation σ ε)) ε β :=
  fun (s, seen) x buffer =>
    let reply := run s x buffer
    ⟨reply.failure, reply.buffer, (reply.state, seen ++ [note s x buffer reply])⟩

def System.observed (f : System σ ε) : System (σ × List (Evaluation σ ε)) ε where
  residual := ⟨.observed .residual f.residual.run, fun (s, _) x fx => f.residual.length_run s x fx⟩
  jacobian := .observed .jacobian f.jacobian
  both := ⟨.observed .both f.both.run, fun (s, _) x fx jx => f.both.length_run s x fx jx⟩
  dimension := f.dimension

end RootFinding
