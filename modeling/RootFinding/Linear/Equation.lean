/-!
# Linear systems by elimination

A system is a list of equations, each with the coefficients of the unknowns that are still in
it and a right-hand side. The number type brings its arithmetic, a test for zero and a
comparison of magnitudes; with exact rationals the solution is exact, with binary64 numbers
every operation rounds in the order stated here.

One unknown is removed at a time. The equation with the leading coefficient of greatest
magnitude, the first of these, changes places with the top one; a NaN is never of greater
magnitude than another number and never exceeded by one. If that coefficient is zero the system
is singular. Otherwise each other equation has its leading coefficient multiplied by the
reciprocal of the pivot, and that multiple of the top equation is taken from it, right-hand side
included. The remaining system is solved, and the top equation gives its own unknown: the known
terms are taken from its right-hand side from the last unknown back, and the rest is divided by
the pivot.
-/

namespace RootFinding.Linear

class Magnitude (α : Type) where
  isZero : α → Bool
  /-- whether the first has the greater magnitude -/
  exceeds : α → α → Bool

instance : Magnitude Float where
  isZero a := a == 0
  exceeds a b := b.abs < a.abs

instance : Magnitude Rat where
  isZero a := a = 0
  exceeds a b := b.abs < a.abs

structure Equation (α : Type) where
  coefficients : List α
  value : α

variable {α : Type} [Add α] [Mul α] [Neg α] [Div α] [OfNat α 0] [OfNat α 1] [Magnitude α]

def Equation.lead (e : Equation α) : α := e.coefficients.headD 0

/-- The place of the first number of greatest magnitude, where `best` stands at place zero
before the list. -/
def strongest (best : α) : List α → Nat
  | [] => 0
  | a :: rest =>
    if Magnitude.exceeds a best then strongest a rest + 1
    else
      match strongest best rest with
      | 0 => 0
      | place + 1 => place + 2

def pivot (top : Equation α) (rest : List (Equation α)) : Equation α × List (Equation α) :=
  match strongest top.lead (rest.map Equation.lead) with
  | 0 => (top, rest)
  | place + 1 => (rest.getD place top, rest.set place top)

def Equation.reduce (top : Equation α) (reciprocal : α) (e : Equation α) : Equation α :=
  let multiple := e.lead * reciprocal
  { coefficients :=
      List.zipWith (fun t a => -t * multiple + a) top.coefficients.tail e.coefficients.tail
    value := -top.value * multiple + e.value }

def Equation.resolve (e : Equation α) (known : List α) : α :=
  (List.zip e.coefficients.tail known).foldr (fun term sum => -term.2 * term.1 + sum) e.value
    / e.lead

def solveSized : Nat → List (Equation α) → Option (List α)
  | size + 1, top :: rest =>
    let (top, rest) := pivot top rest
    if Magnitude.isZero top.lead then none
    else
      (solveSized size (rest.map (top.reduce (1 / top.lead)))).map fun known =>
        top.resolve known :: known
  | _, _ => some []

def solve (system : List (Equation α)) : Option (List α) := solveSized system.length system

end RootFinding.Linear
