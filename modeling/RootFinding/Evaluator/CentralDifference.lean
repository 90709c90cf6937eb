import RootFinding.Evaluator.System
import RootFinding.Norm

/-!
# Jacobians by central differences

A residual evaluator alone makes a system whose Jacobian is approximated column by column. For
the component `x` of the point the step is a constant times the greater of `|x|` and one. The
residual is evaluated with the component moved forward by the step and then with it moved back,
all other components left as they are, and the column is the difference of the two residuals
over the distance of the two moved values, which is not in general twice the step.

Each column costs two residual calls, and there are as many columns as the point and the matrix
have in common. Three scratch buffers outlive a call. One is the moved point, copied from the
point at each call; a component is put back once its column is done. The two others hold the
residuals: at each call they are given one place to a row of the matrix, new places hold zero, and
the others what they held before. If a residual call fails, its column and those after it are
left alone, and the moved point is not put back.
-/

namespace RootFinding

/-- The cube root of `2 ^ -52`. -/
def differenceScale : Float := Float.ofBits 0x3ed965fea53d6e3d

def differenceStep (x : Float) : Float := differenceScale * larger 1 x.abs

structure Scratch where
  point : List Float
  plus : List Float
  minus : List Float

namespace Scratch

def empty : Scratch := ⟨[], [], []⟩

def resize (n : Nat) (v : List Float) : List Float :=
  v.take n ++ List.replicate (n - v.length) 0

theorem length_resize (n : Nat) (v : List Float) : (resize n v).length = n := by
  simp only [resize, List.length_append, List.length_take, List.length_replicate]
  omega

def fit (s : Scratch) (x : List Float) (rows : Nat) : Scratch :=
  ⟨x, resize rows s.plus, resize rows s.minus⟩

def move (s : Scratch) (j : Nat) (a : Float) : Scratch := { s with point := s.point.set j a }

end Scratch

namespace CentralDifference

variable {σ ε : Type}

def quotients (plus minus : List Float) (width : Float) : List Float :=
  List.zipWith (fun a b => (a - b) / width) plus minus

def column (residual : ResidualEvaluator σ ε) (x : List Float) (j : Nat) :
    σ × Scratch → DenseMatrix Float → Reply (σ × Scratch) ε (DenseMatrix Float)
  | (s, scratch), jx =>
    let here := x.getD j 0
    let forward := here + differenceStep here
    let backward := here - differenceStep here
    let scratch := scratch.move j forward
    let ahead := residual.run s scratch.point scratch.plus
    let scratch := { scratch with plus := ahead.buffer }
    match ahead.failure with
    | some e => ⟨some e, jx, (ahead.state, scratch)⟩
    | none =>
      let scratch := scratch.move j backward
      let behind := residual.run ahead.state scratch.point scratch.minus
      let scratch := { scratch with minus := behind.buffer }
      match behind.failure with
      | some e => ⟨some e, jx, (behind.state, scratch)⟩
      | none =>
        let scratch := scratch.move j here
        let values := quotients scratch.plus scratch.minus (forward - backward)
        ⟨none, jx.setColumn j values, (behind.state, scratch)⟩

def columns (residual : ResidualEvaluator σ ε) (x : List Float) :
    List Nat → σ × Scratch → DenseMatrix Float → Reply (σ × Scratch) ε (DenseMatrix Float)
  | [], s, jx => ⟨none, jx, s⟩
  | j :: rest, s, jx =>
    let reply := column residual x j s jx
    match reply.failure with
    | some e => ⟨some e, reply.buffer, reply.state⟩
    | none => columns residual x rest reply.state reply.buffer

def jacobian (residual : ResidualEvaluator σ ε) : JacobianEvaluator (σ × Scratch) ε :=
  fun (s, scratch) x jx =>
    columns residual x (List.range (min x.length jx.cols)) (s, scratch.fit x jx.rows) jx

def besideScratch (residual : ResidualEvaluator σ ε) : ResidualEvaluator (σ × Scratch) ε where
  run := fun (s, scratch) x fx =>
    let reply := residual.run s x fx
    ⟨reply.failure, reply.buffer, (reply.state, scratch)⟩
  length_run := fun (s, _) x fx => residual.length_run s x fx

def system (residual : ResidualEvaluator σ ε) (dimension : Option Nat) :
    System (σ × Scratch) ε :=
  .sequential (besideScratch residual) (jacobian residual) dimension

end CentralDifference

end RootFinding
