import Mathlib.Data.List.Basic
import Mathlib.Tactic.Common
import RootFinding.DenseMatrix

/-!
# Matrices entry by entry

A matrix is its shape and its entries, which stand in its rows. Writing one entry changes no other,
and writing a column changes no other column; so a matrix all of whose columns are written keeps
nothing of what it held before. Its columns one after another hold the entry `(i, j)` at the place
`j * rows + i`.
-/

namespace RootFinding.DenseMatrix

variable {α : Type}

theorem get?_eq_getElem? {m : DenseMatrix α} {i j : Nat} (hi : i < m.rows) (hj : j < m.cols) :
    m.get? i j = m.data[i * m.cols + j]? := if_pos ⟨hi, hj⟩

theorem ext_get? {a b : DenseMatrix α} (hrows : a.rows = b.rows) (hcols : a.cols = b.cols)
    (h : ∀ i j, i < a.rows → j < a.cols → a.get? i j = b.get? i j) : a = b := by
  have hdata : a.data = b.data := by
    have hsize : a.data.size = b.data.size := by rw [a.size_data, b.size_data, hrows, hcols]
    refine Array.ext_getElem? fun k => ?_
    by_cases hk : k < a.data.size
    · have hlt : k < a.rows * a.cols := a.size_data ▸ hk
      have hcol : 0 < a.cols := Nat.pos_of_mul_pos_left (Nat.zero_lt_of_lt hlt)
      have hi : k / a.cols < a.rows := (Nat.div_lt_iff_lt_mul hcol).2 hlt
      have hj : k % a.cols < a.cols := Nat.mod_lt k hcol
      have hplace : k / a.cols * a.cols + k % a.cols = k := Nat.div_add_mod' k a.cols
      have hentry := h _ _ hi hj
      rw [get?_eq_getElem? hi hj, get?_eq_getElem? (hrows ▸ hi) (hcols ▸ hj), ← hcols,
        hplace] at hentry
      exact hentry
    · rw [Array.getElem?_eq_none (by omega), Array.getElem?_eq_none (by omega)]
  cases a
  cases b
  cases hrows
  cases hcols
  cases hdata
  rfl

theorem place_eq_iff {c i i' j j' : Nat} (hj : j < c) (hj' : j' < c) :
    i * c + j = i' * c + j' ↔ i = i' ∧ j = j' := by
  constructor
  · intro h
    have hc : 0 < c := Nat.zero_lt_of_lt hj
    have hi := congrArg (· / c) h
    simp only [Nat.mul_comm _ c, Nat.mul_add_div hc, Nat.div_eq_of_lt hj, Nat.div_eq_of_lt hj',
      Nat.add_zero] at hi
    subst hi
    exact ⟨rfl, Nat.add_left_cancel h⟩
  · rintro ⟨rfl, rfl⟩
    rfl

theorem get?_set (m : DenseMatrix α) {i j i' j' : Nat} (a : α) (hi' : i' < m.rows)
    (hj' : j' < m.cols) :
    (m.set i j a).get? i' j' = if i = i' ∧ j = j' then some a else m.get? i' j' := by
  by_cases hplace : i < m.rows ∧ j < m.cols
  · have hdata : (m.set i j a).data = m.data.setIfInBounds (i * m.cols + j) a := by
      rw [set, if_pos hplace]
    rw [get?_eq_getElem? ((rows_set m i j a).symm ▸ hi') ((cols_set m i j a).symm ▸ hj'),
      get?_eq_getElem? hi' hj', hdata, cols_set, Array.getElem?_setIfInBounds]
    simp only [place_eq_iff hplace.2 hj']
    split
    · rw [if_pos (place_lt hplace.1 hplace.2)]
    · rfl
  · have hset : m.set i j a = m := if_neg hplace
    have hother : ¬(i = i' ∧ j = j') := by
      rintro ⟨rfl, rfl⟩
      exact hplace ⟨hi', hj'⟩
    rw [hset, if_neg hother]

theorem eq_of_get?_filled {rows cols i j : Nat} {a b : α}
    (h : (filled rows cols a).get? i j = some b) : b = a := by
  have hin : i < rows ∧ j < cols := by
    by_contra hout
    rw [get?_eq_none hout] at h
    cases h
  rw [get?_eq_getElem? hin.1 hin.2] at h
  exact Array.eq_of_mem_replicate (Array.mem_of_getElem? h)

def setColumnFrom (m : DenseMatrix α) (first j : Nat) (column : List α) : DenseMatrix α :=
  (column.zipIdx first).foldl (fun m entry => m.set entry.2 j entry.1) m

theorem shape_setColumnFrom (m : DenseMatrix α) (first j : Nat) (column : List α) :
    (m.setColumnFrom first j column).rows = m.rows ∧
      (m.setColumnFrom first j column).cols = m.cols := by
  induction column generalizing m first with
  | nil => exact ⟨rfl, rfl⟩
  | cons a column ih =>
    obtain ⟨hrows, hcols⟩ := ih (m.set first j a) (first + 1)
    exact ⟨hrows.trans (rows_set m first j a), hcols.trans (cols_set m first j a)⟩

@[simp] theorem rows_setColumn (m : DenseMatrix α) (j : Nat) (column : List α) :
    (m.setColumn j column).rows = m.rows := (m.shape_setColumnFrom 0 j column).1

@[simp] theorem cols_setColumn (m : DenseMatrix α) (j : Nat) (column : List α) :
    (m.setColumn j column).cols = m.cols := (m.shape_setColumnFrom 0 j column).2

theorem get?_setColumnFrom (m : DenseMatrix α) (first : Nat) {j i' j' : Nat} (column : List α)
    (hi' : i' < m.rows) (hj' : j' < m.cols) :
    (m.setColumnFrom first j column).get? i' j' =
      if j = j' ∧ first ≤ i' ∧ i' < first + column.length then column[i' - first]?
      else m.get? i' j' := by
  induction column generalizing m first with
  | nil =>
    rw [if_neg (by simp only [List.length_nil]; omega)]
    rfl
  | cons a column ih =>
    have hstep : m.setColumnFrom first j (a :: column) =
        (m.set first j a).setColumnFrom (first + 1) j column := rfl
    rw [hstep, ih (m.set first j a) (first + 1) (by rwa [rows_set]) (by rwa [cols_set]),
      get?_set m a hi' hj', List.length_cons]
    rcases Nat.lt_trichotomy i' first with hbefore | rfl | hafter
    · rw [if_neg (by omega), if_neg (by omega), if_neg (by omega)]
    · rw [if_neg (by omega), Nat.sub_self]
      by_cases hj : j = j'
      · rw [if_pos ⟨rfl, hj⟩, if_pos (by omega)]
        rfl
      · rw [if_neg (fun h => hj h.2), if_neg (fun h => hj h.1)]
    · obtain ⟨k, rfl⟩ := Nat.exists_eq_add_of_lt hafter
      have hplace : first + k + 1 - first = k + 1 := by omega
      have hplace' : first + k + 1 - (first + 1) = k := by omega
      rw [if_neg (fun h => by omega : ¬(first = first + k + 1 ∧ j = j')), hplace, hplace',
        List.getElem?_cons_succ]
      by_cases hrow : j = j' ∧ k < column.length
      · rw [if_pos (by omega), if_pos (by omega)]
      · rw [if_neg (by omega), if_neg (by omega)]

theorem get?_setColumn (m : DenseMatrix α) {j i' j' : Nat} (column : List α) (hi' : i' < m.rows)
    (hj' : j' < m.cols) :
    (m.setColumn j column).get? i' j' =
      if j = j' ∧ i' < column.length then column[i']? else m.get? i' j' := by
  have h := m.get?_setColumnFrom 0 (j := j) column hi' hj'
  simp only [Nat.zero_add, Nat.zero_le, true_and, Nat.sub_zero] at h
  exact h

theorem length_row {m : DenseMatrix α} {i : Nat} (hi : i < m.rows) : (m.row i).length = m.cols := by
  have hlast : (i + 1) * m.cols ≤ m.data.size := by
    rw [m.size_data]
    exact Nat.mul_le_mul_right _ hi
  rw [row, Array.length_toList, Array.size_extract, Nat.min_eq_left hlast, Nat.add_mul, Nat.one_mul,
    Nat.add_sub_cancel_left]

theorem getElem?_row {m : DenseMatrix α} {i : Nat} (hi : i < m.rows) (j : Nat) :
    (m.row i)[j]? = m.get? i j := by
  by_cases hj : j < m.cols
  · have hplace := place_lt hi hj
    have hlong : j < (m.row i).length := by rwa [length_row hi]
    rw [get?_eq_getElem? hi hj, List.getElem?_eq_getElem hlong, Array.getElem?_eq_getElem hplace]
    simp [row]
  · rw [get?_eq_none (fun h => hj h.2), List.getElem?_eq_none (by rw [length_row hi]; omega)]

theorem getElem?_toRows {m : DenseMatrix α} {i : Nat} (hi : i < m.rows) :
    m.toRows[i]? = some (m.row i) := by
  rw [toRows, List.getElem?_map, List.getElem?_range hi]
  rfl

theorem place_lt_mul {r c i j : Nat} (hi : i < r) (hj : j < c) : i * c + j < r * c := by
  calc i * c + j < i * c + c := Nat.add_lt_add_left hj _
    _ = (i + 1) * c := by rw [Nat.add_mul, Nat.one_mul]
    _ ≤ r * c := Nat.mul_le_mul_right _ hi

theorem place_div {c i j : Nat} (hj : j < c) : (i * c + j) / c = i := by
  rw [Nat.mul_comm, Nat.mul_add_div (Nat.zero_lt_of_lt hj), Nat.div_eq_of_lt hj, Nat.add_zero]

theorem exists_get? {m : DenseMatrix α} {i j : Nat} (hi : i < m.rows) (hj : j < m.cols) :
    ∃ a, m.get? i j = some a := by
  rw [get?_eq_getElem? hi hj]
  exact ⟨_, Array.getElem?_eq_getElem (place_lt hi hj)⟩

theorem get?_ofFn {rows cols i j : Nat} (entry : Nat → Nat → α) (hi : i < rows) (hj : j < cols) :
    (ofFn rows cols entry).get? i j = some (entry i j) := by
  rw [get?_eq_getElem? hi hj, ofFn]
  simp [place_lt_mul hi hj, place_div hj, Nat.mul_add_mod_of_lt hj]

theorem mem_data_iff {m : DenseMatrix α} {a : α} :
    a ∈ m.data ↔ ∃ i < m.rows, ∃ j < m.cols, m.get? i j = some a := by
  constructor
  · intro ha
    obtain ⟨k, hk, rfl⟩ := Array.mem_iff_getElem.1 ha
    have hlt : k < m.rows * m.cols := m.size_data ▸ hk
    have hcols : 0 < m.cols := Nat.pos_of_mul_pos_left (Nat.zero_lt_of_lt hlt)
    have hi : k / m.cols < m.rows := (Nat.div_lt_iff_lt_mul hcols).2 hlt
    have hj : k % m.cols < m.cols := Nat.mod_lt k hcols
    refine ⟨_, hi, _, hj, ?_⟩
    rw [get?_eq_getElem? hi hj, Nat.div_add_mod', Array.getElem?_eq_getElem hk]
  · rintro ⟨i, hi, j, hj, ha⟩
    rw [get?_eq_getElem? hi hj] at ha
    exact Array.mem_of_getElem? ha

theorem mem_flatten_toColumns {m : DenseMatrix α} {a : α} :
    a ∈ m.toColumns.flatten ↔ a ∈ m.data := by
  rw [mem_data_iff]
  simp only [toColumns, column, List.mem_flatten, List.mem_map, List.mem_range]
  constructor
  · rintro ⟨_, ⟨j, hj, rfl⟩, ha⟩
    obtain ⟨i, hi, ha⟩ := List.mem_filterMap.1 ha
    exact ⟨i, List.mem_range.1 hi, j, hj, ha⟩
  · rintro ⟨i, hi, j, hj, ha⟩
    exact ⟨_, ⟨j, hj, rfl⟩, List.mem_filterMap.2 ⟨i, List.mem_range.2 hi, ha⟩⟩

theorem flatten_map_range (r c : Nat) (g : Nat → Nat → α) :
    ((List.range c).map fun j => (List.range r).map (g j)).flatten =
      (List.range (c * r)).map fun k => g (k / r) (k % r) := by
  induction c with
  | zero => simp
  | succ c ih =>
    have hlast : (List.range r).map (g c) =
        ((List.range r).map (c * r + ·)).map fun k => g (k / r) (k % r) := by
      rw [List.map_map]
      refine List.map_congr_left fun i hi => ?_
      have hi := List.mem_range.1 hi
      simp [place_div hi, Nat.mul_add_mod_of_lt hi]
    rw [List.range_succ, List.map_append, List.flatten_append, ih, Nat.add_mul, Nat.one_mul,
      List.range_add, List.map_append, ← hlast]
    simp

theorem column_eq (m : DenseMatrix α) (a : α) {j : Nat} (hj : j < m.cols) :
    m.column j = (List.range m.rows).map fun i => (m.get? i j).getD a := by
  refine List.filterMap_eq_map_iff_forall_eq_some.2 fun i hi => ?_
  obtain ⟨b, hb⟩ := exists_get? (List.mem_range.1 hi) hj
  rw [hb]
  rfl

theorem flatten_toColumns (m : DenseMatrix α) (a : α) :
    m.toColumns.flatten = (List.range (m.cols * m.rows)).map fun k =>
      (m.get? (k % m.rows) (k / m.rows)).getD a := by
  rw [← flatten_map_range m.rows m.cols fun j i => (m.get? i j).getD a, toColumns]
  exact congrArg List.flatten (List.map_congr_left fun j hj => m.column_eq a (List.mem_range.1 hj))

theorem length_flatten_toColumns [Inhabited α] (m : DenseMatrix α) :
    m.toColumns.flatten.length = m.rows * m.cols := by
  rw [m.flatten_toColumns default, List.length_map, List.length_range, Nat.mul_comm]

theorem getElem?_flatten_toColumns (m : DenseMatrix α) {i j : Nat} (hi : i < m.rows)
    (hj : j < m.cols) : m.toColumns.flatten[j * m.rows + i]? = m.get? i j := by
  obtain ⟨a, ha⟩ := exists_get? hi hj
  rw [m.flatten_toColumns a, List.getElem?_map, List.getElem?_range (place_lt_mul hj hi),
    Option.map_some, Nat.mul_add_mod_of_lt hi, place_div hi, ha]
  rfl

theorem getElem?_flatten_ofFn {rows cols i j : Nat} (entry : Nat → Nat → α) (hi : i < rows)
    (hj : j < cols) :
    (ofFn rows cols entry).toColumns.flatten[j * rows + i]? = some (entry i j) :=
  (getElem?_flatten_toColumns _ hi hj).trans (get?_ofFn entry hi hj)

structure AgreeOn (columns : List Nat) (a b : DenseMatrix α) : Prop where
  rows : a.rows = b.rows
  cols : a.cols = b.cols
  entries : ∀ j ∈ columns, ∀ i, i < a.rows → j < a.cols → a.get? i j = b.get? i j

theorem AgreeOn.subset {columns columns' : List Nat} {a b : DenseMatrix α}
    (h : AgreeOn columns a b) (hsub : columns' ⊆ columns) : AgreeOn columns' a b :=
  ⟨h.rows, h.cols, fun j hj => h.entries j (hsub hj)⟩

theorem AgreeOn.setColumn {columns : List Nat} {a b : DenseMatrix α} (h : AgreeOn columns a b)
    (j : Nat) {column : List α} (hlength : column.length = a.rows) :
    AgreeOn (j :: columns) (a.setColumn j column) (b.setColumn j column) := by
  refine ⟨by simp [h.rows], by simp [h.cols], ?_⟩
  intro j' hmem i hi hj'
  rw [rows_setColumn] at hi
  rw [cols_setColumn] at hj'
  rw [get?_setColumn a column hi hj', get?_setColumn b column (h.rows ▸ hi) (h.cols ▸ hj')]
  by_cases hj : j = j'
  · rw [if_pos ⟨hj, hlength ▸ hi⟩, if_pos ⟨hj, hlength ▸ hi⟩]
  · have hold := (List.mem_cons.1 hmem).resolve_left (Ne.symm hj)
    rw [if_neg (fun h => hj h.1), if_neg (fun h => hj h.1)]
    exact h.entries j' hold i hi hj'

theorem AgreeOn.eq {columns : List Nat} {a b : DenseMatrix α} (h : AgreeOn columns a b)
    (hall : ∀ j < a.cols, j ∈ columns) : a = b :=
  ext_get? h.rows h.cols fun i j hi hj => h.entries j (hall j hj) i hi hj

end RootFinding.DenseMatrix
