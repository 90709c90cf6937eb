import RootFinding.Report.Tree
import RootFinding.Report.Summary

/-!
# Reports as trees

Each kind of report is written as a tree and read back from one. A diagnostic is one field named
for its kind; a matrix is a list of its entries column by column, its rows and its columns, and
is read only if the product of the two is the number of entries. Named diagnostics are fields,
and every other report is a record.
-/

namespace RootFinding

def DenseMatrix.toTree (m : DenseMatrix Float) : Tree :=
  .list [Tree.ofNumbers m.toColumns.flatten, .whole m.rows, .whole m.cols]

def DenseMatrix.ofColumns? (entries : List Float) (rows cols : Nat) :
    Option (DenseMatrix Float) :=
  if entries.length = rows * cols then
    let entries := entries.toArray
    some (.ofFn rows cols fun i j => entries.getD (j * rows + i) 0)
  else none

def DenseMatrix.ofTree? : Tree → Option (DenseMatrix Float)
  | .list [entries, rows, cols] => do
    DenseMatrix.ofColumns? (← entries.numbers?) (← rows.count?) (← cols.count?)
  | _ => none

def Diagnostic.toTree : Diagnostic → Tree
  | number x => .fields [("Number", Tree.ofNumber x)]
  | text s => .fields [("Text", .text s)]
  | vector v => .fields [("Vector", Tree.ofNumbers v)]
  | matrix m => .fields [("Matrix", m.toTree)]

def Diagnostic.ofTree? : Tree → Option Diagnostic
  | .fields [(kind, content)] =>
    if kind = "Number" then content.number?.map .number
    else if kind = "Text" then content.text?.map .text
    else if kind = "Vector" then content.numbers?.map .vector
    else if kind = "Matrix" then (DenseMatrix.ofTree? content).map .matrix
    else none
  | _ => none

def Diagnostics.toTree (t : Diagnostics) : Tree :=
  .fields (t.entries.map fun entry => (entry.1, entry.2.toTree))

def Diagnostics.ofTree? : Tree → Option Diagnostics
  | .fields entries =>
    (entries.mapM fun entry => (Diagnostic.ofTree? entry.2).map fun value => (entry.1, value)).map
      Diagnostics.ofList
  | _ => none

def Snapshot.names : List String := ["iteration", "residual_norm", "step_norm", "metadata"]

def Snapshot.toTree (s : Snapshot) : Tree :=
  .fields (Snapshot.names.zip
    [.whole s.iteration, Tree.ofNumber s.residualNorm, Tree.ofNumber s.stepNorm,
      s.diagnostics.toTree])

def Snapshot.ofTree? (t : Tree) : Option Snapshot :=
  match t.record? Snapshot.names with
  | some [iteration, residualNorm, stepNorm, diagnostics] => do
    return ⟨← iteration.count?, ← residualNorm.number?, ← stepNorm.number?,
      ← Diagnostics.ofTree? diagnostics⟩
  | _ => none

def History.names : List String := ["states"]

def History.toTree (h : History) : Tree :=
  .fields (History.names.zip [.list (h.snapshots.toList.map Snapshot.toTree)])

def History.ofTree? (t : Tree) : Option History :=
  match t.record? History.names with
  | some [snapshots] => do
    return ⟨(← (← snapshots.items?).mapM Snapshot.ofTree?).toArray⟩
  | _ => none

def Summary.names : List String :=
  ["method", "initial_x", "zero", "residual_norm", "iterations", "x_converged", "xtol",
    "f_converged", "ftol", "trace", "residual_calls", "jacobian_calls"]

def Summary.toTree (s : Summary) : Tree :=
  .fields (Summary.names.zip
    [.text s.method, Tree.ofNumbers s.start, Tree.ofNumbers s.zero, Tree.ofNumber s.residualNorm,
      .whole s.iterations, .flag s.verdict.smallStep, Tree.ofNumber s.tolerances.step,
      .flag s.verdict.smallResidual, Tree.ofNumber s.tolerances.residual, s.history.toTree,
      .whole s.residualCalls, .whole s.jacobianCalls])

def Summary.ofTree? (t : Tree) : Option Summary :=
  match t.record? Summary.names with
  | some [method, start, zero, residualNorm, iterations, smallStep, step, smallResidual, residual,
      history, residualCalls, jacobianCalls] => do
    return {
      method := ← method.text?
      start := ← start.numbers?
      zero := ← zero.numbers?
      residualNorm := ← residualNorm.number?
      iterations := ← iterations.count?
      verdict := ⟨← smallStep.flag?, ← smallResidual.flag?⟩
      tolerances := ⟨← step.number?, ← residual.number?⟩
      history := ← History.ofTree? history
      residualCalls := ← residualCalls.count?
      jacobianCalls := ← jacobianCalls.count? }
  | _ => none

end RootFinding
