import RootFinding.Proofs.Report.Rendering
import RootFinding.Report.Snapshot

/-!
# The lines of a snapshot

The text of a snapshot is made of lines: the numbers of the iteration first, and then one line to a
diagnostic. Lines without a line break in them can be told apart, and the first has none; it begins
with the number of the iteration.
-/

namespace RootFinding

open Decimal

def terminated (lines : List (List Char)) : List Char := lines.flatMap (· ++ ['\n'])

theorem terminated_cons (line : List Char) (lines : List (List Char)) :
    terminated (line :: lines) = line ++ '\n' :: terminated lines := by
  rw [terminated, List.flatMap_cons, List.append_assoc]
  rfl

theorem terminated_inj {lines lines' : List (List Char)} (h : ∀ line ∈ lines, '\n' ∉ line)
    (h' : ∀ line ∈ lines', '\n' ∉ line) (heq : terminated lines = terminated lines') :
    lines = lines' := by
  induction lines generalizing lines' with
  | nil =>
    cases lines' with
    | nil => rfl
    | cons line' lines' =>
      rw [terminated_cons] at heq
      exact absurd heq.symm (List.append_ne_nil_of_right_ne_nil _ (List.cons_ne_nil _ _))
  | cons line lines ih =>
    cases lines' with
    | nil =>
      rw [terminated_cons] at heq
      exact absurd heq (List.append_ne_nil_of_right_ne_nil _ (List.cons_ne_nil _ _))
    | cons line' lines' =>
      have hline := h line List.mem_cons_self
      have hline' := h' line' List.mem_cons_self
      rw [terminated_cons, terminated_cons] at heq
      have hfirst := congrArg (upTo '\n') heq
      rw [upTo_append_cons hline, upTo_append_cons hline'] at hfirst
      have hlater := congrArg (past '\n') heq
      rw [past_append_cons hline, past_append_cons hline'] at hlater
      rw [hfirst, ih (fun l hl => h l (List.mem_cons_of_mem _ hl))
        (fun l hl => h' l (List.mem_cons_of_mem _ hl)) hlater]

namespace Diagnostics

def label (name : String) : List Char := [' ', '*', ' '] ++ name.toList ++ [':', ' ']

def textLine (entry : String × Diagnostic) : List Char := label entry.1 ++ entry.2.chars

theorem chars_eq (t : Diagnostics) : t.chars = terminated (t.entries.map textLine) := by
  rw [chars, terminated, List.flatMap_map]
  rfl

end Diagnostics

theorem newline_notMem_bracketed {text : List Char} (h : '\n' ∉ text) :
    '\n' ∉ '[' :: (text ++ [']']) := by
  rw [List.mem_cons, List.mem_append]
  rintro (hopen | htext | hclose)
  · cases hopen
  · exact h htext
  · cases List.mem_singleton.1 hclose

theorem newline_notMem_vectorText (v : List Float) : '\n' ∉ vectorText v :=
  newline_notMem_bracketed (notMem_intercalate (by decide) fun text htext =>
    (mem_map_write legible_entryStyle rfl (by decide) v text htext).2)

theorem newline_notMem_matrixText (m : DenseMatrix Float) : '\n' ∉ matrixText m := by
  refine newline_notMem_bracketed (notMem_intercalate (by decide) fun text htext => ?_)
  obtain ⟨row, -, rfl⟩ := List.mem_map.1 htext
  exact notMem_rowText rfl (by decide) (by decide) row

theorem newline_notMem_column {text : List Char} (h : '\n' ∉ text) (width : Nat) :
    '\n' ∉ column width text := by
  rw [column, List.mem_append]
  rintro (hblank | htext)
  · cases List.eq_of_mem_replicate hblank
  · exact h htext

theorem Snapshot.newline_notMem_line (s : Snapshot) : '\n' ∉ s.line := by
  have hgap : '\n' ∉ gap := by decide
  have hiteration : '\n' ∉ column 6 (natural s.iteration) :=
    newline_notMem_column ((isDigits_natural _).notMem rfl) _
  have hnorm (x : Float) : '\n' ∉ column 14 (scientific 6 x) :=
    newline_notMem_column ((isNumberText_scientific 6 x).notMem rfl (by decide)) _
  rw [line]
  simp only [List.mem_append, not_or]
  exact ⟨⟨⟨⟨hiteration, hgap⟩, hnorm _⟩, hgap⟩, hnorm _⟩

theorem dropWhile_column {text : List Char} (hne : text ≠ []) (hblank : ' ' ∉ text) (width : Nat)
    (rest : List Char) :
    (column width text ++ rest).dropWhile (· == ' ') = text ++ rest := by
  obtain ⟨c, later, rfl⟩ := List.exists_cons_of_ne_nil hne
  have hblanks : ∀ a ∈ List.replicate (width - (c :: later).length) ' ', (a == ' ') = true :=
    fun a ha => beq_iff_eq.2 (List.eq_of_mem_replicate ha)
  have hfirst : ¬ (c == ' ') = true := fun heq => hblank (beq_iff_eq.1 heq ▸ List.mem_cons_self)
  rw [column, List.append_assoc, List.dropWhile_append_of_pos hblanks, List.cons_append,
    List.dropWhile_cons, if_neg hfirst]

theorem Snapshot.iteration_of_line {s s' : Snapshot} (h : s.line = s'.line) :
    s.iteration = s'.iteration := by
  have hfirst (s : Snapshot) :
      upTo ' ' (s.line.dropWhile (· == ' ')) = natural s.iteration := by
    have hne : natural s.iteration ≠ [] := Nat.toDigits_ne_nil
    have hblank : ' ' ∉ natural s.iteration := (isDigits_natural _).notMem rfl
    have hline : s.line = column 6 (natural s.iteration) ++ (gap ++ (column 14
        (scientific 6 s.residualNorm) ++ (gap ++ column 14 (scientific 6 s.stepNorm)))) := by
      rw [line]
      simp only [List.append_assoc]
    rw [hline, dropWhile_column hne hblank]
    exact upTo_append_cons hblank _
  have hnatural := congrArg (fun line => upTo ' ' (line.dropWhile (· == ' '))) h
  have hvalue := congrArg digitsValue ((hfirst s).symm.trans (hnatural.trans (hfirst s')))
  rwa [digitsValue_natural, digitsValue_natural] at hvalue

theorem Snapshot.chars_eq (s : Snapshot) :
    s.chars = terminated (s.line :: s.diagnostics.entries.map Diagnostics.textLine) := by
  rw [chars, terminated_cons, Diagnostics.chars_eq]

end RootFinding
