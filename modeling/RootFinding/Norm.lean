/-!
# Sizes of vectors

The maximum norm of a vector is NaN as soon as one component is, and otherwise the greatest
magnitude, counted from zero. The distance of two vectors is the maximum norm of their
differences over the common length.

The Euclidean norm sums the squares from left to right, starting at negative zero, so the empty
vector has norm `-0`. The length of a step is summed in blocks: eight running sums over the
whole blocks of eight, these added in pairs four apart, and the remaining squares added one by
one. The two agree over exact numbers and differ only in the order of their roundings.
-/

namespace RootFinding

def notANumber : Float := Float.ofBits 0x7ff8000000000000

/-- The greater of two numbers; the first if neither is greater. -/
def larger (a b : Float) : Float := if a < b then b else a

def infNorm (v : List Float) : Float :=
  if v.any Float.isNaN then notANumber else v.foldl (fun m a => larger m a.abs) 0

def infDistance (a b : List Float) : Float := infNorm (List.zipWith (· - ·) a b)

section Squares

variable {α : Type} [Add α] [Mul α]

def addSquares (start : α) (v : List α) : α := v.foldl (fun sum a => sum + a * a) start

/-- Running sums of squares over the given number of blocks, one sum to each place in a block. -/
def laneSums (width : Nat) : Nat → List α → List α → List α
  | 0, sums, _ => sums
  | blocks + 1, sums, v =>
    laneSums width blocks (List.zipWith (fun sum a => sum + a * a) sums (v.take width))
      (v.drop width)

def sumSquares [OfNat α 0] (v : List α) : α :=
  let blocks := v.length / 8
  let sums := laneSums 8 blocks (List.replicate 8 0) v
  let paired := (List.zipWith (· + ·) (sums.take 4) (sums.drop 4)).foldl (· + ·) 0
  addSquares paired (v.drop (8 * blocks))

end Squares

def euclideanNorm (v : List Float) : Float := (addSquares (-0.0) v).sqrt

def stepLength (v : List Float) : Float := (sumSquares v).sqrt

end RootFinding
