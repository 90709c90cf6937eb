import RootFinding.Evaluator.System

/-!
# Evaluators written as scripts

A script is a list of statements run in order on the buffers of one call. Expressions read the
point, what the buffers hold at that moment, and how many calls of the same evaluator came
before; their operations are those of binary64. A statement writes one entry, fills or replaces
the Jacobian, or ends the run, with an error or without one. What no statement writes keeps its
earlier content; a place outside a buffer reads as zero and takes no value.
-/

namespace RootFinding.Script

inductive UnaryOp where
  | neg | abs | sqrt
  deriving DecidableEq, Repr

inductive BinaryOp where
  | add | sub | mul | div
  deriving DecidableEq, Repr

inductive Relation where
  | less | lessEq | greater | equal
  deriving DecidableEq, Repr

def UnaryOp.eval : UnaryOp → Float → Float
  | neg, a => -a
  | abs, a => a.abs
  | sqrt, a => a.sqrt

def BinaryOp.eval : BinaryOp → Float → Float → Float
  | add, a, b => a + b
  | sub, a, b => a - b
  | mul, a, b => a * b
  | div, a, b => a / b

def Relation.holds : Relation → Float → Float → Bool
  | less, a, b => a < b
  | lessEq, a, b => a ≤ b
  | greater, a, b => b < a
  | equal, a, b => a == b

inductive Expr where
  | constant (a : Float)
  | point (i : Nat)
  | residual (i : Nat)
  | jacobian (i j : Nat)
  /-- the number of earlier calls -/
  | calls
  | unary (op : UnaryOp) (a : Expr)
  | binary (op : BinaryOp) (a b : Expr)
  /-- the product of `n` equal factors, multiplied from left to right -/
  | power (a : Expr) (n : Nat)
  /-- the sum of the coefficients times the components of the point, from left to right -/
  | dot (coefficients : List Float)

structure Condition where
  relation : Relation
  left : Expr
  right : Expr

inductive Statement where
  | setResidual (i : Nat) (e : Expr)
  | setJacobian (i j : Nat) (e : Expr)
  | fillJacobian (e : Expr)
  /-- a zero matrix of the given shape instead of the Jacobian -/
  | resizeJacobian (rows cols : Nat)
  | fail (c : Condition) (error : String)
  | stop (c : Condition)

structure Frame where
  point : List Float
  residual : List Float
  jacobian : DenseMatrix Float
  calls : Nat

def Expr.eval (f : Frame) : Expr → Float
  | constant a => a
  | point i => f.point.getD i 0
  | residual i => f.residual.getD i 0
  | jacobian i j => (f.jacobian.get? i j).getD 0
  | calls => Float.ofNat f.calls
  | unary op a => op.eval (a.eval f)
  | binary op a b => op.eval (a.eval f) (b.eval f)
  | power a n => (List.replicate (n - 1) (a.eval f)).foldl (· * ·) (a.eval f)
  | dot coefficients =>
    (List.zipWith (· * ·) coefficients f.point).foldl (· + ·) 0

def Condition.holds (f : Frame) (c : Condition) : Bool :=
  c.relation.holds (c.left.eval f) (c.right.eval f)

def setRows (rows : List (List Expr)) : List Statement :=
  rows.zipIdx.flatMap fun row =>
    row.1.zipIdx.map fun entry => Statement.setJacobian row.2 entry.2 entry.1

def run : List Statement → Frame → Option String × Frame
  | [], f => (none, f)
  | .setResidual i e :: rest, f =>
    run rest { f with residual := f.residual.set i (e.eval f) }
  | .setJacobian i j e :: rest, f =>
    run rest { f with jacobian := f.jacobian.set i j (e.eval f) }
  | .fillJacobian e :: rest, f => run rest { f with jacobian := f.jacobian.fill (e.eval f) }
  | .resizeJacobian rows cols :: rest, f =>
    run rest { f with jacobian := .filled rows cols 0 }
  | .fail c error :: rest, f => if c.holds f then (some error, f) else run rest f
  | .stop c :: rest, f => if c.holds f then (none, f) else run rest f

theorem length_residual_run (code : List Statement) (f : Frame) :
    (run code f).2.residual.length = f.residual.length := by
  induction code generalizing f with
  | nil => rfl
  | cons statement rest ih =>
    cases statement with
    | setResidual i e => rw [run, ih, List.length_set]
    | setJacobian i j e => rw [run, ih]
    | fillJacobian e => rw [run, ih]
    | resizeJacobian rows cols => rw [run, ih]
    | fail c error =>
      rw [run]
      split
      · rfl
      · exact ih f
    | stop c =>
      rw [run]
      split
      · rfl
      · exact ih f

def emptyMatrix : DenseMatrix Float := .filled 0 0 0

def residual (code : List Statement) (calls : Nat) : ResidualEvaluator Unit String where
  run _ x fx :=
    let result := run code ⟨x, fx, emptyMatrix, calls⟩
    ⟨result.1, result.2.residual, ()⟩
  length_run _ _ _ := length_residual_run code _

def jacobian (code : List Statement) (calls : Nat) : JacobianEvaluator Unit String :=
  fun _ x jx =>
    let result := run code ⟨x, [], jx, calls⟩
    ⟨result.1, result.2.jacobian, ()⟩

def both (code : List Statement) (calls : Nat) : JointEvaluator Unit String where
  run _ x buffers :=
    let result := run code ⟨x, buffers.1, buffers.2, calls⟩
    ⟨result.1, (result.2.residual, result.2.jacobian), ()⟩
  length_run _ _ _ _ := length_residual_run code _

end RootFinding.Script
