/-!
# Dense matrices

A matrix keeps its shape and its entries row by row in one array, whose size is the product of
the two dimensions. Entries outside the shape are absent: reading one gives nothing, and writing
one changes nothing. Two matrices are equal for `==` when their shapes agree and their entries
are equal for `==` place by place.
-/

namespace RootFinding

structure DenseMatrix (α : Type) where
  rows : Nat
  cols : Nat
  data : Array α
  size_data : data.size = rows * cols

namespace DenseMatrix

variable {α : Type}

def ofFn (rows cols : Nat) (entry : Nat → Nat → α) : DenseMatrix α where
  rows := rows
  cols := cols
  data := Array.ofFn fun k : Fin (rows * cols) => entry (k / cols) (k % cols)
  size_data := Array.size_ofFn

def filled (rows cols : Nat) (a : α) : DenseMatrix α where
  rows := rows
  cols := cols
  data := Array.replicate (rows * cols) a
  size_data := Array.size_replicate

def ofData? (rows cols : Nat) (data : Array α) : Option (DenseMatrix α) :=
  if h : data.size = rows * cols then some ⟨rows, cols, data, h⟩ else none

def get? (m : DenseMatrix α) (i j : Nat) : Option α :=
  if i < m.rows ∧ j < m.cols then m.data[i * m.cols + j]? else none

def set (m : DenseMatrix α) (i j : Nat) (a : α) : DenseMatrix α :=
  if i < m.rows ∧ j < m.cols then
    { m with
      data := m.data.setIfInBounds (i * m.cols + j) a
      size_data := by rw [Array.size_setIfInBounds, m.size_data] }
  else m

def fill (m : DenseMatrix α) (a : α) : DenseMatrix α := filled m.rows m.cols a

def setColumn (m : DenseMatrix α) (j : Nat) (column : List α) : DenseMatrix α :=
  (column.zipIdx).foldl (fun m entry => m.set entry.2 j entry.1) m

def row (m : DenseMatrix α) (i : Nat) : List α :=
  (m.data.extract (i * m.cols) ((i + 1) * m.cols)).toList

def toRows (m : DenseMatrix α) : List (List α) := (List.range m.rows).map m.row

def column (m : DenseMatrix α) (j : Nat) : List α :=
  (List.range m.rows).filterMap fun i => m.get? i j

def toColumns (m : DenseMatrix α) : List (List α) := (List.range m.cols).map m.column

instance [BEq α] : BEq (DenseMatrix α) where
  beq a b := a.rows == b.rows && a.cols == b.cols && a.data == b.data

theorem place_lt {m : DenseMatrix α} {i j : Nat} (hi : i < m.rows) (hj : j < m.cols) :
    i * m.cols + j < m.data.size := by
  rw [m.size_data]
  calc i * m.cols + j < i * m.cols + m.cols := Nat.add_lt_add_left hj _
    _ = (i + 1) * m.cols := by rw [Nat.add_mul, Nat.one_mul]
    _ ≤ m.rows * m.cols := Nat.mul_le_mul_right _ hi

theorem get?_eq_none {m : DenseMatrix α} {i j : Nat} (h : ¬(i < m.rows ∧ j < m.cols)) :
    m.get? i j = none := if_neg h

@[simp] theorem rows_set (m : DenseMatrix α) (i j : Nat) (a : α) : (m.set i j a).rows = m.rows := by
  unfold set; split <;> rfl

@[simp] theorem cols_set (m : DenseMatrix α) (i j : Nat) (a : α) : (m.set i j a).cols = m.cols := by
  unfold set; split <;> rfl

end DenseMatrix

end RootFinding
