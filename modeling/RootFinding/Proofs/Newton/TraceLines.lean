import RootFinding.Proofs.Newton.Certificate
import RootFinding.Proofs.Report.Lines

/-!
# An extended snapshot can be read off its text

No line of the text of a snapshot has a line break in it, so the lines can be told apart, and every
diagnostic of a point is a vector or a matrix that its text tells. An extended snapshot of a point
therefore tells the iterate, the residual and the Jacobian, whether a step led there, and the step.
-/

namespace RootFinding

open Decimal

namespace Newton

namespace Shown

variable {e e' : Shown}

theorem newline_notMem_textLine (e : Shown) :
    ∀ line ∈ e.entries.map Diagnostics.textLine, '\n' ∉ line := by
  have hline {name : String} {value : Diagnostic} (hname : '\n' ∉ Diagnostics.label name)
      (hvalue : '\n' ∉ value.chars) : '\n' ∉ Diagnostics.textLine (name, value) := by
    rw [Diagnostics.textLine, List.mem_append]
    exact fun h => h.elim hname hvalue
  have hvector {name : String} (hname : '\n' ∉ Diagnostics.label name) (v : List Float) :
      '\n' ∉ Diagnostics.textLine (name, .vector v) := hline hname (newline_notMem_vectorText v)
  have hmatrix : '\n' ∉ Diagnostics.textLine ("J(x)", .matrix e.jacobian) :=
    hline (by decide) (newline_notMem_matrixText _)
  intro line hmem
  obtain ⟨entry, hentry, rfl⟩ := List.mem_map.1 hmem
  unfold entries at hentry
  split at hentry
  · simp only [List.mem_cons, List.not_mem_nil, or_false] at hentry
    rcases hentry with rfl | rfl | rfl
    · exact hmatrix
    · exact hvector (by decide) _
    · exact hvector (by decide) _
  · simp only [List.mem_cons, List.not_mem_nil, or_false] at hentry
    rcases hentry with rfl | rfl | rfl | rfl
    · exact hmatrix
    · exact hvector (by decide) _
    · exact hvector (by decide) _
    · exact hvector (by decide) _

theorem vector_of_textLine {name : String} {v w : List Float}
    (h : Diagnostics.textLine (name, .vector v) = Diagnostics.textLine (name, .vector w)) :
    v = w := vectorText_injective (List.append_cancel_left h)

theorem matrix_of_textLine {name : String} {a b : DenseMatrix Float} (ha : a.HasEntry)
    (hb : b.HasEntry)
    (h : Diagnostics.textLine (name, .matrix a) = Diagnostics.textLine (name, .matrix b)) :
    a = b := matrixText_inj ha hb (List.append_cancel_left h)

theorem eq_of_textLines (h : e.jacobian.HasEntry) (h' : e'.jacobian.HasEntry)
    (heq : e.entries.map Diagnostics.textLine = e'.entries.map Diagnostics.textLine) : e = e' := by
  obtain ⟨x, residual, jacobian, step⟩ := e
  obtain ⟨x', residual', jacobian', step'⟩ := e'
  cases step with
  | none =>
    cases step' with
    | none =>
      simp only [entries, List.map_cons, List.map_nil, List.cons.injEq] at heq
      obtain ⟨hjacobian, hresidual, hx, -⟩ := heq
      obtain rfl : jacobian = jacobian' := matrix_of_textLine h h' hjacobian
      rw [vector_of_textLine hresidual, vector_of_textLine hx]
    | some d' =>
      have hlength := congrArg List.length heq
      simp [entries] at hlength
  | some d =>
    cases step' with
    | none =>
      have hlength := congrArg List.length heq
      simp [entries] at hlength
    | some d' =>
      simp only [entries, List.map_cons, List.map_nil, List.cons.injEq] at heq
      obtain ⟨hjacobian, hresidual, hstep, hx, -⟩ := heq
      obtain rfl : jacobian = jacobian' := matrix_of_textLine h h' hjacobian
      rw [vector_of_textLine hresidual, vector_of_textLine hstep, vector_of_textLine hx]

theorem lines_of_render {shot shot' : Snapshot} (htaken : shot.diagnostics.entries = e.entries)
    (htaken' : shot'.diagnostics.entries = e'.entries) (heq : shot.render = shot'.render) :
    shot.line = shot'.line ∧
      e.entries.map Diagnostics.textLine = e'.entries.map Diagnostics.textLine := by
  have hchars : shot.chars = shot'.chars := String.ofList_injective heq
  rw [Snapshot.chars_eq, Snapshot.chars_eq, htaken, htaken'] at hchars
  have hlines (e : Shown) (shot : Snapshot) :
      ∀ line ∈ shot.line :: e.entries.map Diagnostics.textLine, '\n' ∉ line := by
    intro line hline
    rcases List.mem_cons.1 hline with rfl | hline
    · exact shot.newline_notMem_line
    · exact e.newline_notMem_textLine line hline
  exact List.cons.inj (terminated_inj (hlines e shot) (hlines e' shot') hchars)

structure Same (e e' : Shown) : Prop where
  x : SameVector e.x e'.x
  residual : SameVector e.residual e'.residual
  jacobian : SameMatrix e.jacobian e'.jacobian
  step : Option.Rel SameVector e.step e'.step

theorem Same.refl (e : Shown) : e.Same e where
  x := sameVector_iff.2 rfl
  residual := sameVector_iff.2 rfl
  jacobian := sameMatrix_iff.2 rfl
  step := by
    cases e.step with
    | none => exact .none
    | some d => exact .some (sameVector_iff.2 rfl)

end Shown

/-- Of vectors, of matrices that have an entry and of extended snapshots of points, no two have the
same text unless their numbers are the same. -/
structure Unambiguous : Prop where
  vectors : ∀ v w : List Float,
    (Diagnostic.vector v).render = (Diagnostic.vector w).render ↔ SameVector v w
  matrices : ∀ a b : DenseMatrix Float, a.HasEntry → b.HasEntry →
    ((Diagnostic.matrix a).render = (Diagnostic.matrix b).render ↔ SameMatrix a b)
  snapshots : ∀ p q : Point, p.jacobian.HasEntry → q.jacobian.HasEntry →
    (p.snapshot true).render = (q.snapshot true).render → p.index = q.index ∧ p.shown.Same q.shown

theorem unambiguous_renderings : Unambiguous where
  vectors _ _ := render_vector_eq_iff
  matrices _ _ := render_matrix_eq_iff
  snapshots p q hp hq heq := by
    have hentries (p : Point) : (p.snapshot true).diagnostics.entries = p.shown.entries :=
      p.entries_diagnostics
    obtain ⟨hline, hlines⟩ := Shown.lines_of_render (hentries p) (hentries q) heq
    have hshown : p.shown = q.shown := Shown.eq_of_textLines hp hq hlines
    exact ⟨Snapshot.iteration_of_line hline, hshown ▸ Shown.Same.refl _⟩

end Newton

end RootFinding
