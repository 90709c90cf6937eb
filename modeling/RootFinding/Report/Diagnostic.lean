import RootFinding.Decimal.Numeral
import RootFinding.DenseMatrix

/-!
# Diagnostic values

A diagnostic is a number, a text, a vector or a matrix. A number and the entries of a matrix
are written plainly, the components of a vector as vector entries. The rows of a matrix are set
apart by semicolons and its columns by blanks, so a matrix without columns still shows how many
rows it has.
-/

namespace RootFinding

inductive Diagnostic where
  | number (x : Float)
  | text (s : String)
  | vector (v : List Float)
  | matrix (m : DenseMatrix Float)
  deriving BEq

/-- A vector as text: `[a, b, c]`. -/
def vectorText (v : List Float) : List Char :=
  '[' :: ([',', ' '] : List Char).intercalate (v.map Decimal.entry) ++ [']']

/-- A matrix as text: `[a b; c d]`. -/
def matrixText (m : DenseMatrix Float) : List Char :=
  let rows := m.toRows.map fun row => ([' '] : List Char).intercalate (row.map Decimal.plain)
  '[' :: ([';', ' '] : List Char).intercalate rows ++ [']']

def Diagnostic.chars : Diagnostic → List Char
  | number x => Decimal.plain x
  | text s => s.toList
  | vector v => vectorText v
  | matrix m => matrixText m

def Diagnostic.render (d : Diagnostic) : String := String.ofList d.chars

end RootFinding
