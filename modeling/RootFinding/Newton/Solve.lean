import RootFinding.Newton.Point
import RootFinding.Report.Summary

/-!
# Newton's method for square systems

A solve first checks its settings and the declared dimension, then evaluates the starting point.
From there on it takes steps until an iterate passes a stopping test, the iterations are used
up, or a residual is NaN; the verdict on the last iterate stands in every case. Each evaluated
point leaves a snapshot if the settings ask for a trace. What is printed or stored has no part
in the numbers: a point depends on the system, its state and the point before it only.
-/

namespace RootFinding.Newton

variable {σ ε : Type}

structure Progress where
  point : Point
  verdict : Verdict
  history : History
  journal : Journal

structure Ending (σ ε : Type) where
  failure : Option (Failure ε)
  progress : Progress
  state : σ

def Settings.record (o : Settings) (p : Point) (h : History) (j : Journal) : History × Journal :=
  if o.traces then h.record (p.snapshot o.extendedTrace) o.storeTrace o.printsTrace j else (h, j)

def Progress.reach (o : Settings) (r : Progress) (p : Point) : Progress :=
  let recorded := o.record p r.history r.journal
  { point := p
    verdict := o.tolerances.judge p.x p.previous p.residual
    history := recorded.1
    journal := recorded.2 }

def Progress.emit (r : Progress) (e : Event) : Progress := { r with journal := r.journal.emit e }

def Progress.warn (r : Progress) (e : Failure ε) : Progress := e.warning?.elim r r.emit

/-- At most the given number of further iterations. -/
def iterate (f : System σ ε) (o : Settings) : Nat → σ → Progress → Ending σ ε
  | 0, s, r => ⟨none, r, s⟩
  | remaining + 1, s, r =>
    if r.verdict.converged then ⟨none, r, s⟩
    else
      match r.point.next f s with
      | (.error e, s) => ⟨some e, r.warn e, s⟩
      | (.ok p, s) =>
        if p.residualNorm.isNaN then ⟨none, (r.reach o p).emit (.residualNaN p.index), s⟩
        else iterate f o remaining s (r.reach o p)

def Progress.begin (o : Settings) (p : Point) (j : Journal) : Progress :=
  let j := if o.printsTrace then j.print History.header .headerLost else j
  let recorded := o.record p .empty j
  { point := p
    verdict := o.tolerances.judgeStart p.residual
    history := recorded.1
    journal := recorded.2 }

def Progress.summary (o : Settings) (start : List Float) (r : Progress) : Summary where
  method := method
  start := start
  zero := r.point.x
  residualNorm := r.point.residualNorm
  iterations := r.point.index
  verdict := r.verdict
  tolerances := o.tolerances
  history := r.history
  residualCalls := r.point.evaluations
  jacobianCalls := r.point.evaluations

structure Outcome (σ ε : Type) where
  result : Except (Failure ε) Summary
  state : σ
  journal : Journal

def precheck (f : System σ ε) (o : Settings) (start : List Float) : Option (Failure ε) :=
  match o.fault? with
  | some fault => some (.settings fault)
  | none =>
    match f.dimension with
    | none => none
    | some found =>
      if found = start.length then none else some (.dimensionMismatch start.length found)

def Ending.outcome (o : Settings) (start : List Float) (e : Ending σ ε) : Outcome σ ε :=
  let r := e.progress
  match e.failure with
  | some failure => ⟨.error failure, e.state, r.journal⟩
  | none =>
    ⟨.ok (r.summary o start), e.state,
      r.journal.emit (.finished r.point.index r.verdict.converged r.point.residualNorm)⟩

def solve (f : System σ ε) (s : σ) (start : List Float) (o : Settings) (sink : Sink) :
    Outcome σ ε :=
  match precheck f o start with
  | some failure => ⟨.error failure, s, .start sink⟩
  | none =>
    let j := (Journal.start sink).emit (.started start.length o.tolerances o.iterations)
    match Point.start f s start with
    | (.error e, s) => ⟨.error e, s, j⟩
    | (.ok p, s) => (iterate f o o.iterations s (.begin o p j)).outcome o start

def solveWithDefaults (f : System σ ε) (s : σ) (start : List Float) : Outcome σ ε :=
  solve f s start {} .unlimited

end RootFinding.Newton
