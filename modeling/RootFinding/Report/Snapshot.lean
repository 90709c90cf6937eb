import RootFinding.Report.Diagnostics
import RootFinding.Norm

/-!
# Snapshots of an iteration

A snapshot holds the iteration number, the maximum norm of the residual, the length of the step
that led there, and the named diagnostics. Its text is one line of three columns, of widths 6,
14 and 14 with three blanks between them, and below it one line to a diagnostic. The norms have
six digits after the point and an exponent.
-/

namespace RootFinding

structure Snapshot where
  iteration : Nat
  residualNorm : Float
  stepNorm : Float := notANumber
  diagnostics : Diagnostics := .empty
  deriving BEq

namespace Snapshot

def gap : List Char := [' ', ' ', ' ']

def line (s : Snapshot) : List Char :=
  Decimal.column 6 (Decimal.natural s.iteration) ++ gap ++
    Decimal.column 14 (Decimal.scientific 6 s.residualNorm) ++ gap ++
    Decimal.column 14 (Decimal.scientific 6 s.stepNorm)

def chars (s : Snapshot) : List Char := s.line ++ '\n' :: s.diagnostics.chars

def render (s : Snapshot) : String := String.ofList s.chars

def setDiagnostic (s : Snapshot) (name : String) (value : Diagnostic) : Snapshot :=
  { s with diagnostics := s.diagnostics.insert name value }

end Snapshot

end RootFinding
