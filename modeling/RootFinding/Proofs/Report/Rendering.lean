import RootFinding.Proofs.Decimal.NumberText
import RootFinding.Proofs.DenseMatrix
import RootFinding.Report.Diagnostic

/-!
# The text of a vector or a matrix tells its entries

Texts that are set apart by a separator can be told apart again if none of them is empty and none
has the first character of the separator in it. Number texts have none of the separators, so a
vector can be read off its text, and so can a matrix that has an entry: its rows are set apart by
semicolons and the entries of a row by blanks.
-/

namespace RootFinding

section Separator

variable {mark : Char} {rest : List Char}

theorem append_intercalate (front item : List Char) (mark : Char) (items : List (List Char)) :
    front ++ [mark].intercalate (item :: items) =
      [mark].intercalate ((front ++ item) :: items) := by
  cases items with
  | nil => rw [List.intercalate_singleton, List.intercalate_singleton]
  | cons next items =>
    rw [List.intercalate_cons_cons, List.intercalate_cons_cons, ← List.append_assoc,
      ← List.append_assoc]

theorem intercalate_eq (mark : Char) (rest item : List Char) (items : List (List Char)) :
    (mark :: rest).intercalate (item :: items) =
      [mark].intercalate (item :: items.map (rest ++ ·)) := by
  induction items generalizing item with
  | nil => rfl
  | cons next items ih =>
    rw [List.map_cons, List.intercalate_cons_cons, List.intercalate_cons_cons, ih,
      ← append_intercalate, List.append_assoc, List.append_assoc]
    rfl

variable {items items' : List (List Char)}

theorem splitOn_intercalate_cons (hrest : mark ∉ rest) {item : List Char}
    (h : ∀ text ∈ item :: items, mark ∉ text) :
    List.splitOn mark ((mark :: rest).intercalate (item :: items)) =
      item :: items.map (rest ++ ·) := by
  rw [intercalate_eq]
  refine List.splitOn_intercalate mark (fun text htext => ?_) (List.cons_ne_nil _ _)
  rcases List.mem_cons.1 htext with rfl | htext
  · exact h text List.mem_cons_self
  · obtain ⟨text', htext', rfl⟩ := List.mem_map.1 htext
    have htext' := h text' (List.mem_cons_of_mem _ htext')
    exact fun hmark => (List.mem_append.1 hmark).elim hrest htext'

theorem intercalate_ne_nil {item : List Char} (sep : List Char) (h : item ≠ []) :
    sep.intercalate (item :: items) ≠ [] := by
  cases items with
  | nil => rwa [List.intercalate_singleton]
  | cons next items =>
    rw [List.intercalate_cons_cons, List.append_assoc]
    exact List.append_ne_nil_of_left_ne_nil h _

theorem intercalate_inj (hrest : mark ∉ rest) (h : ∀ text ∈ items, text ≠ [] ∧ mark ∉ text)
    (h' : ∀ text ∈ items', text ≠ [] ∧ mark ∉ text)
    (heq : (mark :: rest).intercalate items = (mark :: rest).intercalate items') :
    items = items' := by
  cases items with
  | nil =>
    cases items' with
    | nil => rfl
    | cons item' items' =>
      exact absurd heq.symm (intercalate_ne_nil _ (h' item' List.mem_cons_self).1)
  | cons item items =>
    cases items' with
    | nil => exact absurd heq (intercalate_ne_nil _ (h item List.mem_cons_self).1)
    | cons item' items' =>
      have hsplit := congrArg (List.splitOn mark) heq
      rw [splitOn_intercalate_cons hrest fun text htext => (h text htext).2,
        splitOn_intercalate_cons hrest fun text htext => (h' text htext).2] at hsplit
      obtain ⟨rfl, hrests⟩ := List.cons.inj hsplit
      rw [List.map_injective_iff.2 (fun _ _ => List.append_cancel_left) hrests]

theorem notMem_intercalate {sep : List Char} {a : Char} (hsep : a ∉ sep)
    (h : ∀ text ∈ items, a ∉ text) : a ∉ sep.intercalate items := by
  induction items with
  | nil => exact List.not_mem_nil
  | cons item items ih =>
    have hitem := h item List.mem_cons_self
    have hrest := ih fun text htext => h text (List.mem_cons_of_mem _ htext)
    cases items with
    | nil => rwa [List.intercalate_singleton]
    | cons next items =>
      rw [List.intercalate_cons_cons]
      simp only [List.mem_append, not_or]
      exact ⟨⟨hitem, hsep⟩, hrest⟩

end Separator

open Decimal

variable {mark : Char} {rest : List Char}

theorem mem_map_write {style : Style} (hstyle : style.Legible)
    (hdigit : mark.isDigit = false) (hmark : mark ∉ marks) (v : List Float) :
    ∀ text ∈ v.map style.write, text ≠ [] ∧ mark ∉ text := by
  intro text htext
  obtain ⟨x, -, rfl⟩ := List.mem_map.1 htext
  exact ⟨write_ne_nil hstyle x, (isNumberText_write hstyle x).notMem hdigit hmark⟩

theorem vectorText_eq (v : List Float) :
    vectorText v = '[' :: (([',', ' '] : List Char).intercalate (v.map entry) ++ [']']) := rfl

theorem intercalate_write_injective {style : Style} (hstyle : style.Legible)
    (hdigit : mark.isDigit = false) (hmark : mark ∉ marks) (hrest : mark ∉ rest) :
    Function.Injective fun v : List Float => (mark :: rest).intercalate (v.map style.write) := by
  intro v w h
  exact List.map_injective_iff.2 (write_injective hstyle)
    (intercalate_inj hrest (mem_map_write hstyle hdigit hmark v)
      (mem_map_write hstyle hdigit hmark w) h)

theorem vectorText_injective : Function.Injective vectorText := by
  intro v w h
  rw [vectorText_eq, vectorText_eq] at h
  have hinside := List.append_cancel_right (List.cons.inj h).2
  exact intercalate_write_injective legible_entryStyle rfl (by decide) (by decide) hinside

def rowText (row : List Float) : List Char := ([' '] : List Char).intercalate (row.map plain)

theorem matrixText_eq (m : DenseMatrix Float) :
    matrixText m =
      '[' :: (([';', ' '] : List Char).intercalate (m.toRows.map rowText) ++ [']']) := rfl

theorem rowText_injective : Function.Injective rowText :=
  intercalate_write_injective legible_plainStyle rfl (by decide) List.not_mem_nil

theorem rowText_ne_nil {row : List Float} (h : row ≠ []) : rowText row ≠ [] := by
  obtain ⟨x, rest, rfl⟩ := List.exists_cons_of_ne_nil h
  exact intercalate_ne_nil _ (write_ne_nil legible_plainStyle x)

theorem notMem_rowText {mark : Char} (hdigit : mark.isDigit = false) (hmark : mark ∉ marks)
    (hblank : mark ≠ ' ') (row : List Float) : mark ∉ rowText row :=
  notMem_intercalate (fun h => hblank (List.mem_singleton.1 h)) fun text htext =>
    (mem_map_write legible_plainStyle hdigit hmark row text htext).2

def DenseMatrix.HasEntry {α : Type} (m : DenseMatrix α) : Prop := 0 < m.rows ∧ 0 < m.cols

theorem DenseMatrix.mem_toRows {α : Type} {m : DenseMatrix α} {row : List α}
    (h : row ∈ m.toRows) : row.length = m.cols := by
  obtain ⟨i, hi, rfl⟩ := List.mem_map.1 h
  exact length_row (List.mem_range.1 hi)

theorem DenseMatrix.eq_of_toRows {α : Type} {a b : DenseMatrix α} (ha : a.HasEntry)
    (h : a.toRows = b.toRows) : a = b := by
  have hrows : a.rows = b.rows := by
    have hlength := congrArg List.length h
    rwa [toRows, toRows, List.length_map, List.length_map, List.length_range,
      List.length_range] at hlength
  have hrow {i : Nat} (hi : i < a.rows) : a.row i = b.row i := by
    have hsome := congrArg (·[i]?) h
    simp only [getElem?_toRows hi, getElem?_toRows (hrows ▸ hi)] at hsome
    exact Option.some.inj hsome
  have hcols : a.cols = b.cols := by
    rw [← length_row ha.1, hrow ha.1, length_row (hrows ▸ ha.1)]
  refine ext_get? hrows hcols fun i j hi _ => ?_
  rw [← getElem?_row hi, hrow hi, getElem?_row (hrows ▸ hi)]

theorem matrixText_inj {a b : DenseMatrix Float} (ha : a.HasEntry) (hb : b.HasEntry)
    (h : matrixText a = matrixText b) : a = b := by
  have hitems {m : DenseMatrix Float} (hm : m.HasEntry) :
      ∀ text ∈ m.toRows.map rowText, text ≠ [] ∧ ';' ∉ text := by
    intro text htext
    obtain ⟨row, hrow, rfl⟩ := List.mem_map.1 htext
    have hlength := DenseMatrix.mem_toRows hrow
    have hne : row ≠ [] := List.ne_nil_of_length_pos (hlength ▸ hm.2)
    exact ⟨rowText_ne_nil hne, notMem_rowText rfl (by decide) (by decide) row⟩
  rw [matrixText_eq, matrixText_eq] at h
  have hinside := List.append_cancel_right (List.cons.inj h).2
  have htexts := intercalate_inj (by decide) (hitems ha) (hitems hb) hinside
  exact DenseMatrix.eq_of_toRows ha (List.map_injective_iff.2 rowText_injective htexts)

def SameVector (v w : List Float) : Prop := List.Forall₂ SameNumber v w

structure SameMatrix (a b : DenseMatrix Float) : Prop where
  rows : a.rows = b.rows
  cols : a.cols = b.cols
  entries : ∀ i j, i < a.rows → j < a.cols →
    ∃ x y, a.get? i j = some x ∧ b.get? i j = some y ∧ SameNumber x y

theorem sameVector_iff {v w : List Float} : SameVector v w ↔ v = w := by
  have hsame : SameNumber = Eq := funext₂ fun _ _ => propext sameNumber_iff
  rw [SameVector, hsame, List.forall₂_eq_eq_eq]

theorem sameMatrix_iff {a b : DenseMatrix Float} : SameMatrix a b ↔ a = b := by
  constructor
  · rintro ⟨hrows, hcols, hentries⟩
    refine DenseMatrix.ext_get? hrows hcols fun i j hi hj => ?_
    obtain ⟨x, y, hx, hy, hsame⟩ := hentries i j hi hj
    rw [hx, hy, sameNumber_iff.1 hsame]
  · rintro rfl
    refine ⟨rfl, rfl, fun i j hi hj => ?_⟩
    obtain ⟨x, hx⟩ := DenseMatrix.exists_get? hi hj
    exact ⟨x, x, hx, hx, sameNumber_iff.2 rfl⟩

theorem render_vector_eq_iff {v w : List Float} :
    (Diagnostic.vector v).render = (Diagnostic.vector w).render ↔ SameVector v w := by
  rw [sameVector_iff]
  constructor
  · exact fun h => vectorText_injective (String.ofList_injective h)
  · rintro rfl
    rfl

theorem render_matrix_eq_iff {a b : DenseMatrix Float} (ha : a.HasEntry) (hb : b.HasEntry) :
    (Diagnostic.matrix a).render = (Diagnostic.matrix b).render ↔ SameMatrix a b := by
  rw [sameMatrix_iff]
  constructor
  · exact fun h => matrixText_inj ha hb (String.ofList_injective h)
  · rintro rfl
    rfl

/-- Without an entry the number of columns is lost. -/
example : (Diagnostic.matrix (.filled 0 1 0)).render = (Diagnostic.matrix (.filled 0 2 0)).render :=
  rfl

end RootFinding
